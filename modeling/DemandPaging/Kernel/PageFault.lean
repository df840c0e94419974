/-
  Serving a TLB miss.  A page that is in a frame only needs its mapping
  loaded; any other is a page fault first, and is brought in from swap, from the
  image, or as zeroes.

  A fault that fails leaves no half-made mapping behind: the frame goes back to
  the pool and the page stays where it was.
-/
import DemandPaging.Kernel.Evict

namespace DemandPaging.Kernel

variable {σ : Type}

/-- The content of an image page, from the section it lies in. -/
def loadImagePage (executable : List SectionId) (vpn : Vpn) : KernelM σ Bytes := do
  let k ← get
  let exe ← k.executable executable
  match (← exe.position? vpn).bind (executable[·]?) with
  | none => throw (.sectionMissing vpn)
  | some sectionId => onSection sectionId (Section.loadAt vpn k.pageSize)

variable [BackingStore σ]

/-- The content of a page that is not in a frame. -/
def fetch (process : Process) (entry : PageEntry) : KernelM σ Bytes := do
  let k ← get
  match entry.state with
  | .swapped slot => onSwap (SwapSpace.swapIn slot k.pageSize)
  | .absent =>
    if entry.vpn < (← (← k.executable process.executable).numPages) then
      loadImagePage process.executable entry.vpn
    else
      return Bytes.zeros k.pageSize
  | .resident frame => Violation.stop (.alreadyResident entry.vpn frame)

/-- Brings the content of a page into a frame. -/
def fill (process : Process) (entry : PageEntry) (frame : Frame) : KernelM σ Unit := do
  let page ← fetch process entry
  writing (·.writeFrame frame page)

/-- Makes a page that is not in a frame resident. -/
def pageIn (pid : Pid) (process : Process) (entry : PageEntry) : KernelM σ Mapping := do
  modify fun k => { k with pageFaults := k.pageFaults + 1 }
  let frame ← allocateFrame
  onFrames (·.assign frame pid { vpn := entry.vpn, ppn := frame, readOnly := entry.readOnly })
  onFrames (·.pin frame)
  match ← Action.observe (fill process entry frame) with
  | .error e =>
    onFrames (·.release frame)
    onFrames (·.unpin frame)
    onFrames (·.giveBack frame)
    throw e
  | .ok () =>
    -- the entry is as it was: only pages that are in a frame change meanwhile
    let entry := entry.loaded frame
    onResidency fun r => .ok (r.setEntry pid entry.vpn entry)
    onFrames (·.record frame entry.mapping)
    onFrames (·.unpin frame)
    return entry.mapping

/-- A valid mapping of page `vpn` of process `pid`. -/
def resolve (pid : Pid) (vpn : Vpn) : KernelM σ Mapping := do
  let process ← liveProcess pid
  let entry ← Action.ofExcept id (process.table.get vpn)
  if entry.isValid then
    return entry.mapping
  else
    pageIn pid process entry

/-- Serves a TLB miss of process `pid` at `vaddr`.  The page is computed before the
    process is looked at. -/
def handleMiss (pid : Pid) (vaddr : Nat) : KernelM σ Unit := do
  let vpn := pageOf (← divisor (← get).pageSize) vaddr
  install pid (← resolve pid vpn)

end DemandPaging.Kernel
