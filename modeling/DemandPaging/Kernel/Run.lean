/-
  The operations that a kernel offers, as data, and runs of them.

  A `Request` is an operation with its arguments, `Kernel.perform` carries it
  out, and `Kernel.run` carries out a list of them: an error is an answer like any
  other, a violation ends the run.
-/
import DemandPaging.Kernel.Access
import DemandPaging.Kernel.Lifecycle
import DemandPaging.Kernel.Transfer

namespace DemandPaging

/-- An operation of a process. -/
inductive ProcessRequest where
  | loadByte (vaddr : UInt32)
  | storeByte (vaddr : UInt32) (b : UInt8)
  | loadWord (vaddr : UInt32)
  | storeWord (vaddr : UInt32) (w : Nat)
  /-- Fills a buffer from the address space. -/
  | readBytes (vaddr : UInt32) (buffer : Bytes)
  | writeBytes (vaddr : UInt32) (data : Bytes)
  | handleMiss (vaddr : UInt32)
  /-- Leaves the processor. -/
  | saveState
  /-- Comes back to the processor. -/
  | restoreState
  | exit
  /-- Exits and is forgotten. -/
  | drop
deriving DecidableEq, Repr

/-- An operation of the kernel. -/
inductive Request where
  | spawn (sections : List SectionId)
  | process (pid : Pid) (request : ProcessRequest)
deriving DecidableEq, Repr

/-- The answer to a request that met no error. -/
inductive Reply where
  | done
  | spawned (pid : Pid) (numPages : Nat)
  | byte (b : UInt8)
  | word (w : Nat)
  /-- The number of bytes copied into a buffer, and the buffer. -/
  | filled (count : Nat) (buffer : Bytes)
  /-- The number of bytes copied out. -/
  | copied (count : Nat)
  /-- There is no such process. -/
  | noProcess
deriving DecidableEq, Repr

namespace Kernel

variable {σ : Type} [BackingStore σ]

/-- Carries out an operation of a process that is there. -/
def performFor (pid : Pid) : ProcessRequest → KernelM σ Reply
  | .loadByte vaddr => .byte <$> loadByte pid vaddr.toNat
  | .storeByte vaddr b => (fun () => .done) <$> storeByte pid vaddr.toNat b
  | .loadWord vaddr => .word <$> loadWord pid vaddr.toNat
  | .storeWord vaddr w => (fun () => .done) <$> storeWord pid vaddr.toNat w
  | .readBytes vaddr buffer => do
    let (result, buffer) ← ExceptT.lift (readBytes pid vaddr.toNat buffer)
    return .filled (← Action.ofExcept id result) buffer
  | .writeBytes vaddr data => .copied <$> writeBytes pid vaddr.toNat data
  | .handleMiss vaddr => (fun () => .done) <$> handleMiss pid vaddr.toNat
  | .saveState => (fun () => .done) <$> flush
  | .restoreState => return .done
  | .exit => (fun () => .done) <$> exit pid
  | .drop => (fun () => .done) <$> drop pid

/-- Carries out a request.  Dropping a process that is not there does nothing. -/
def perform : Request → KernelM σ Reply
  | .spawn sections => do
    let pid ← spawn sections
    return .spawned pid (← process pid).numPages
  | .process pid request => do
    match (← get).residency.process? pid with
    | some _ => performFor pid request
    | none => return if request = .drop then .done else .noProcess

/-- Carries out requests one after another.  Answers each of them. -/
def run : List Request → StateT (Kernel σ) Checked (List (Except PagingError Reply))
  | [] => return []
  | r :: rest => do
    let reply ← (perform r).run
    return reply :: (← run rest)

end Kernel

end DemandPaging
