/-
  Byte-addressable storage.  A store is any state that can answer reads and
  writes of ranges; `MemoryStore` is one that keeps its bytes in memory and fails
  at calls given in advance.
-/
import DemandPaging.Block
import DemandPaging.Error

namespace DemandPaging

/-- Storage that the swap area can live on. -/
class BackingStore (σ : Type) where
  /-- The `len` bytes from `offset` on. -/
  read (offset len : Nat) : Action σ StoreError Bytes
  /-- Replaces the bytes from `offset` on. -/
  write (offset : Nat) (src : Bytes) : Action σ StoreError Unit

/-- A growable store in memory.  Reads and writes are counted apart, failed ones
    too; those whose numbers are listed fail. -/
structure MemoryStore where
  bytes : Block := .empty
  capacity : Option Nat := none
  failingReads : List Nat := []
  failingWrites : List Nat := []
  reads : Nat := 0
  writes : Nat := 0
deriving Repr

namespace MemoryStore

/-- Reads a range.  A range that ends past the last byte is not read. -/
def read (offset len : Nat) : Action MemoryStore StoreError Bytes := do
  let store ← get
  modify fun store => { store with reads := store.reads + 1 }
  if store.failingReads.contains store.reads then
    throw (.io .other)
  if store.bytes.size < offset + len then
    throw (.io .unexpectedEof)
  return store.bytes.slice offset len

/-- Writes a range.  Room up to its end is made with zeroes, within the capacity. -/
def write (offset : Nat) (src : Bytes) : Action MemoryStore StoreError Unit := do
  let store ← get
  modify fun store => { store with writes := store.writes + 1 }
  if store.failingWrites.contains store.writes then
    throw (.io .other)
  let stop := offset + src.length
  if store.capacity.any (· < stop) then
    throw .overCapacity
  modify fun store => { store with bytes := store.bytes.put offset src }

instance : BackingStore MemoryStore := ⟨read, write⟩

end MemoryStore

end DemandPaging
