/-
  Taking a frame from one page to give it to another.

  The victim is the choice of the clock.  Its page goes to a swap slot if the
  image or a zero page could not bring its content back, and is dropped
  otherwise.  A victim that cannot be written out stays where it is.
-/
import DemandPaging.Kernel.Tlb

namespace DemandPaging.Kernel

variable {σ : Type} [BackingStore σ]

/-- Writes the content of a frame to a new slot for its page. -/
def writeOut (frame : Frame) (owner : SlotOwner) : KernelM σ SlotIndex := do
  let page ← reading fun mem => mem.readFrame frame mem.pageSize
  onSwap (SwapSpace.swapOut owner page)

/-- Saves the content of a victim, and says where its page lives from now on. -/
def save (frame : Frame) (pid : Pid) (entry : PageEntry) : KernelM σ PageState := do
  if entry.needsSwap then
    onFrames (·.pin frame)
    let written ← Action.observe (writeOut frame ⟨pid, entry.vpn⟩)
    onFrames (·.unpin frame)
    return .swapped (← Action.ofExcept id written)
  else
    return .absent

/-- Takes a frame from the page of process `pid` that is in it.  A process whose
    page table is out of sight just loses the frame. -/
def vacate (frame : Frame) (pid : Pid) : KernelM σ Unit := do
  -- the TLB must not lead to this frame once it changes hands
  shootDown frame
  let r := (← get).residency
  let vpn := (← r.frames.lookup frame).mapping.vpn
  match r.table? pid with
  | none => onFrames (·.release frame)
  | some table =>
    let entry ← Action.ofExcept id (table.get vpn)
    Checked.require (entry.state = .resident frame) .victimNotResident
    let state ← save frame pid entry
    onResidency fun r => .ok (r.setEntry pid vpn (entry.evicted state))
    onFrames (·.release frame)
    modify fun k => { k with evictions := k.evictions + 1 }

/-- Takes a victim's frame from it. -/
def evict : KernelM σ Frame := do
  harvest
  let (victim, residency) ← (← get).residency.selectVictim
  modify fun k => { k with residency }
  match victim with
  | none => throw .outOfMemory
  | some (frame, pid) =>
    vacate frame pid
    return frame

/-- A frame for a faulting page: from the pool while it lasts, else a victim's. -/
def allocateFrame : KernelM σ Frame := do
  match (← get).residency.frames.takeOne with
  | some (frame, frames) =>
    onFrames fun _ => .ok frames
    return frame
  | none => evict

end DemandPaging.Kernel
