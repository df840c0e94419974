/-
  Making and ending processes.

  A new process has the pages of its image followed by its stack, all absent
  until first touched.  An exit gives back every frame, TLB slot and swap slot of
  the process; a frame that is pinned follows with its last pin.
-/
import DemandPaging.Kernel.Tlb

namespace DemandPaging.Kernel

variable {σ : Type}

/-- Makes a process that runs the given sections. -/
def spawn (sections : List SectionId) : KernelM σ Pid := do
  let k ← get
  let exe ← k.executable sections
  Action.ofExcept .image (exe.checkPageSize k.pageSize)
  Action.ofAttempt id exe.checkContiguous
  let imagePages ← exe.numPages
  let numPages ← addBelow limit32 imagePages k.config.stackPages
  let table ← Action.ofAttempt id (exe.flagPages (.create numPages))
  onResidency fun r => .ok (r.addProcess { table, executable := sections, numPages })
  return k.residency.nextPid

/-- The frames and slots while a process gives back its own, and how many these have been.
    Both are counted in signed 32-bit numbers. -/
structure Holdings where
  frames : FrameTable
  slots : SlotTable
  frameCount : Nat := 0
  slotCount : Nat := 0

/-- Gives back the frame or the slot of a page, and counts it. -/
def releasePage (held : Holdings) (entry : PageEntry) : Checked Holdings := do
  match entry.state with
  | .resident frame =>
    let frames ← held.frames.freeOrDefer frame
    return { held with frames, frameCount := ← addBelow limit31 held.frameCount 1 }
  | .swapped slot =>
    let slots ← held.slots.deallocate slot
    return { held with slots, slotCount := ← addBelow limit31 held.slotCount 1 }
  | .absent => return held

/-- Gives back the frames and slots of all pages, in order. -/
def releasePages (table : PageTable) (held : Holdings) : Checked Holdings :=
  table.entries.toList.foldlM releasePage held

/-- Gives back all that a process holds. -/
def releaseProcess (pid : Pid) : KernelM σ Unit := do
  let table := (← process pid).table
  let k ← get
  let (_, tlb) := k.tlb.takeOwnedBy pid
  let held ← releasePages table { frames := k.residency.frames, slots := k.swap.slots }
  let (_, slots) := held.slots.deallocateOwnedBy pid
  set { k with
    tlb
    residency := { k.residency with frames := held.frames }
    swap := { k.swap with slots } }
  onResidency fun r => .ok (r.retire pid)

/-- Ends a process.  A second exit changes nothing. -/
def exit (pid : Pid) : KernelM σ Unit := do
  unless (← process pid).exited do
    onResidency fun r => .ok (r.updateProcess pid fun process => { process with exited := true })
    releaseProcess pid

/-- Ends a process and forgets it. -/
def drop (pid : Pid) : KernelM σ Unit := do
  exit pid
  onResidency fun r => .ok (r.dropProcess pid)

/-- Makes the frame side lose sight of a process's page table, and says whether it
    had it in sight. -/
def forget (pid : Pid) : KernelM σ Bool := do
  let r := (← get).residency
  onResidency fun r => .ok (r.updateProcess pid fun process => { process with registered := false })
  return (r.table? pid).isSome

/-- Moves a section to another place in the address space. -/
def moveSection (sectionId : SectionId) (firstVpn : Vpn) : KernelM σ Unit :=
  modify fun k =>
    { k with sections := k.sections.modify sectionId fun s => { s with firstVpn } }

end DemandPaging.Kernel
