/-
  Memory instructions of a process: bytes and words at virtual addresses.

  An instruction translates its address through the TLB.  When the TLB misses,
  the miss is served and the instruction starts again; one served miss is enough,
  since serving it puts the very mapping into the TLB.
-/
import DemandPaging.Kernel.PageFault

namespace DemandPaging.Kernel

variable {σ : Type} [BackingStore σ]

/-- The physical address of `vaddr` after serving at most the given number of TLB
    misses. -/
def locate (pid : Pid) (vaddr : Nat) (write : Bool) : (misses : Nat) → KernelM σ Nat
  | 0 => do
    match ← translate pid vaddr write with
    | some address => return address
    | none => Violation.missNotServed.stop
  | misses + 1 => do
    match ← translate pid vaddr write with
    | some address => return address
    | none =>
      handleMiss pid vaddr
      locate pid vaddr write misses

/-- The physical address that an instruction of process `pid` reaches. -/
def userAddress (pid : Pid) (vaddr : Nat) (write : Bool) : KernelM σ Nat := do
  let process ← liveProcess pid
  let vpn := pageOf (← divisor (← get).pageSize) vaddr
  if process.numPages ≤ vpn then
    throw (.addressOutOfRange vpn)
  locate pid vaddr write 1

/-- Refuses a word that does not start at a multiple of its size. -/
def checkAligned (vaddr : Nat) : KernelM σ Unit := do
  if vaddr % Bytes.wordSize ≠ 0 then
    throw (.unalignedAccess vaddr)

/-- Loads the byte at `vaddr`. -/
def loadByte (pid : Pid) (vaddr : Nat) : KernelM σ UInt8 := do
  let address ← userAddress pid vaddr false
  reading (·.readByte address)

/-- Stores a byte at `vaddr`. -/
def storeByte (pid : Pid) (vaddr : Nat) (b : UInt8) : KernelM σ Unit := do
  let address ← userAddress pid vaddr true
  writing (·.writeByte address b)

/-- Loads the word at `vaddr`. -/
def loadWord (pid : Pid) (vaddr : Nat) : KernelM σ Nat := do
  checkAligned vaddr
  let address ← userAddress pid vaddr false
  reading (·.readWord address)

/-- Stores a word at `vaddr`. -/
def storeWord (pid : Pid) (vaddr w : Nat) : KernelM σ Unit := do
  checkAligned vaddr
  let address ← userAddress pid vaddr true
  writing (·.writeWord address w)

/-- Reads the byte at `vaddr` if the TLB has its mapping. -/
def probe (pid : Pid) (vaddr : Nat) (write : Bool) : KernelM σ (Option UInt8) := do
  match ← translate pid vaddr write with
  | none => return none
  | some address => return some (← reading (·.readByte address))

end DemandPaging.Kernel
