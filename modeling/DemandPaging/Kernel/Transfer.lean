/-
  Copies between the kernel and the address space of a process.

  A copy goes page by page.  While a chunk is copied the frame of its page is
  pinned, so that it cannot be evicted.  The copy stops short where the range
  leaves the address space; an error keeps what was copied before the page that
  failed.
-/
import DemandPaging.Kernel.PageFault

namespace DemandPaging.Kernel

variable {σ α : Type}

/-- A part of a copy that lies in one page: the page, the place in it, and the
    number of bytes. -/
structure Chunk where
  vpn : Vpn
  offset : Nat
  amount : Nat
deriving DecidableEq, Repr

/-- The chunks of a copy of `len` bytes at `vaddr` of which `done` are done, at most
    `fuel` of them.  A chunk has at least one byte, so `len` of them are enough. -/
def chunksFrom (pageSize numPages vaddr len : Nat) : (fuel done : Nat) → List Chunk
  | 0, _ => []
  | fuel + 1, done =>
    let address := vaddr + done
    let vpn := pageOf pageSize address
    if len ≤ done ∨ addressLimit ≤ address ∨ numPages ≤ vpn then []
    else
      let offset := offsetIn pageSize address
      let amount := min (pageSize - offset) (len - done)
      ⟨vpn, offset, amount⟩ ::
        chunksFrom pageSize numPages vaddr len fuel (done + amount)

/-- The chunks of a copy of `len` bytes at `vaddr` in an address space of
    `numPages` pages. -/
def chunks (pageSize numPages vaddr len : Nat) : List Chunk :=
  chunksFrom pageSize numPages vaddr len len 0

/-- The chunks of a copy on a machine with pages of the given size, where an address
    can be divided, if there is one to divide. -/
def cut (pageSize numPages vaddr len : Nat) : Checked (List Chunk) := do
  if len = 0 ∨ addressLimit ≤ vaddr then
    return []
  else
    return chunks (← divisor pageSize) numPages vaddr len

variable [BackingStore σ]

/-- Makes a page resident, marks it as accessed, and pins its frame. -/
def pinPage (pid : Pid) (vpn : Vpn) (write : Bool) : KernelM σ Frame := do
  let mapping ← resolve pid vpn
  if write && mapping.readOnly then
    throw (.readOnly vpn)
  let (entry, table) ← Action.ofExcept id ((← liveProcess pid).table.touch vpn write)
  onResidency fun r => .ok (r.setTable pid table)
  onFrames (·.record mapping.ppn entry.mapping)
  onFrames (·.pin mapping.ppn)
  return mapping.ppn

/-- Copies a chunk, given how to copy at a physical address. -/
def copyChunk (pid : Pid) (write : Bool) (chunk : Chunk) (copy : Nat → KernelM σ α) :
    KernelM σ α := do
  let frame ← pinPage pid chunk.vpn write
  let copied ← Action.observe (copy (frame * (← get).pageSize + chunk.offset))
  onFrames (·.unpin frame)
  Action.ofExcept id copied

/-- Copies chunks in.  Answers whether one failed, and what was copied: after
    `pieces`, the last of which comes first, the bytes of the chunks before the one
    that failed. -/
def readChunks (pid : Pid) : List Chunk → (pieces : List Bytes) →
    StateT (Kernel σ) Checked (Except PagingError Unit × Bytes)
  | [], pieces => return (.ok (), pieces.reverse.flatten)
  | c :: rest, pieces => do
    match ← (copyChunk pid false c fun address => reading (·.read address c.amount)).run with
    | .ok bytes => readChunks pid rest (bytes :: pieces)
    | .error e => return (.error e, pieces.reverse.flatten)

/-- Copies chunks out, each taking its bytes from the front of `data`.  Answers the
    number of bytes copied, and `moved` more. -/
def writeChunks (pid : Pid) : List Chunk → (data : Bytes) → (moved : Nat) → KernelM σ Nat
  | [], _, moved => return moved
  | c :: rest, data, moved => do
    copyChunk pid true c fun address => writing (·.write address (data.take c.amount))
    writeChunks pid rest (data.drop c.amount) (moved + c.amount)

/-- Fills a buffer from the address space of process `pid` at `vaddr`.  Answers the
    buffer, which an error leaves half filled, and the number of bytes copied. -/
def readBytes (pid : Pid) (vaddr : Nat) (buffer : Bytes) :
    StateT (Kernel σ) Checked (Except PagingError Nat × Bytes) := do
  match ← (liveProcess pid).run with
  | .error e => return (.error e, buffer)
  | .ok process =>
    let cs ← cut (← get).pageSize process.numPages vaddr buffer.length
    let (result, bytes) ← readChunks pid cs []
    return (result.map fun () => bytes.length, Bytes.overwrite buffer 0 bytes)

/-- Copies `data` to the address space of process `pid` at `vaddr`.  Answers the
    number of bytes copied. -/
def writeBytes (pid : Pid) (vaddr : Nat) (data : Bytes) : KernelM σ Nat := do
  let process ← liveProcess pid
  let cs ← cut (← get).pageSize process.numPages vaddr data.length
  writeChunks pid cs data 0

end DemandPaging.Kernel
