/-
  Main memory: `numFrames` frames of one page each, kept as one flat block of
  bytes.  Bytes, words, ranges and whole frames are views of that block.

  Every access is checked against the capacity before anything is read or
  written, so a refused access leaves memory as it was.
-/
import DemandPaging.Block
import DemandPaging.Error

namespace DemandPaging

/-- Main memory. -/
structure PhysicalMemory where
  pageSize : Nat
  numFrames : Nat
  bytes : Block
deriving Repr

namespace PhysicalMemory

/-- Memory of zeroes.  The page size is a power of two, there is a frame, and
    the number of bytes is a 64-bit product that memory can be set aside for. -/
def create (pageSize numFrames : Nat) : Checked PhysicalMemory := do
  Checked.require (Nat.pow 2 pageSize.log2 = pageSize) (.pageSizeNotPowerOfTwo pageSize)
  Checked.require (0 < numFrames) .noFrames
  let capacity ← mulBelow limit64 numFrames pageSize
  Checked.reserve capacity 1
  return ⟨pageSize, numFrames, Block.zeros capacity⟩

/-- The number of bytes. -/
def capacity (mem : PhysicalMemory) : Nat := mem.numFrames * mem.pageSize

/-- Refuses a range that ends past the last byte.  The end of the range is a
    64-bit sum. -/
def checkRange (mem : PhysicalMemory) (address len : Nat) : Attempt MemoryError Unit := do
  let stop ← addBelow limit64 address len
  if mem.capacity < stop then throw .overCapacity

/-- Refuses a frame that does not exist. -/
def checkFrame (mem : PhysicalMemory) (frame : Frame) : Attempt MemoryError Unit :=
  if mem.numFrames ≤ frame then throw .overCapacity else pure ()

/-- The `len` bytes from `address` on. -/
def read (mem : PhysicalMemory) (address len : Nat) : Attempt MemoryError Bytes := do
  mem.checkRange address len
  mem.bytes.readRange address len

/-- Memory with the bytes from `address` on replaced by `src`. -/
def write (mem : PhysicalMemory) (address : Nat) (src : Bytes) :
    Attempt MemoryError PhysicalMemory := do
  mem.checkRange address src.length
  return { mem with bytes := ← mem.bytes.writeRange address src }

/-- The byte at `address`. -/
def readByte (mem : PhysicalMemory) (address : Nat) : Attempt MemoryError UInt8 := do
  mem.checkRange address 1
  match mem.bytes.get? address with
  | some b => return b
  | none => Violation.index.stop

/-- Memory with the byte at `address` replaced. -/
def writeByte (mem : PhysicalMemory) (address : Nat) (b : UInt8) :
    Attempt MemoryError PhysicalMemory :=
  mem.write address [b]

/-- The big-endian word in the four bytes from `address` on. -/
def readWord (mem : PhysicalMemory) (address : Nat) : Attempt MemoryError Nat := do
  return Bytes.word (← mem.read address Bytes.wordSize)

/-- Memory with the four bytes from `address` on replaced by the word `w`. -/
def writeWord (mem : PhysicalMemory) (address w : Nat) : Attempt MemoryError PhysicalMemory :=
  mem.write address (Bytes.ofWord w)

/-- The content of a frame, for a reader who has room for `len` bytes. -/
def readFrame (mem : PhysicalMemory) (frame : Frame) (len : Nat) :
    Attempt MemoryError Bytes := do
  Checked.require (len = mem.pageSize) .frameBufferSize
  mem.checkFrame frame
  mem.read (frame * mem.pageSize) len

/-- Memory with the content of a frame replaced by `page`. -/
def writeFrame (mem : PhysicalMemory) (frame : Frame) (page : Bytes) :
    Attempt MemoryError PhysicalMemory := do
  Checked.require (page.length = mem.pageSize) .frameBufferSize
  mem.checkFrame frame
  mem.write (frame * mem.pageSize) page

/-- Memory with the content of a frame replaced by zeroes. -/
def zeroFrame (mem : PhysicalMemory) (frame : Frame) : Attempt MemoryError PhysicalMemory := do
  mem.checkFrame frame
  mem.write (frame * mem.pageSize) (Bytes.zeros mem.pageSize)

end PhysicalMemory

end DemandPaging
