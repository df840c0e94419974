/-
  Which page is in which frame, seen from both sides: the frame table with the
  clock's hand, and the processes with their page tables.

  `Residency.reconcile` writes a TLB copy back.  The frame table decides which
  page the copy belongs to; the page number in the copy does not count.
-/
import DemandPaging.Clock
import DemandPaging.PageTable

namespace DemandPaging

/-- A process: its page table, the sections it is paged in from, and the number
    of its pages.  While it is `registered` the frame side finds its table. -/
structure Process where
  table : PageTable
  executable : List SectionId
  numPages : Nat
  exited : Bool := false
  registered : Bool := true
deriving DecidableEq, Repr

/-- Frames and processes.  Processes are numbered from 1 in the order in which they
    are made; one that has been dropped is missing. -/
structure Residency where
  frames : FrameTable
  hand : Nat := 0
  processes : List (Option Process) := []
deriving Repr

namespace Residency

/-- A process. -/
def process? (r : Residency) : Pid → Option Process
  | 0 => none
  | n + 1 => r.processes[n]?.join

/-- Changes a process, if it is there. -/
def updateProcess (r : Residency) (pid : Pid) (f : Process → Process) : Residency :=
  match pid with
  | 0 => r
  | n + 1 => { r with processes := r.processes.modify n (·.map f) }

/-- Forgets a process. -/
def dropProcess (r : Residency) (pid : Pid) : Residency :=
  match pid with
  | 0 => r
  | n + 1 => { r with processes := r.processes.set n none }

/-- The number of the next process. -/
def nextPid (r : Residency) : Pid := r.processes.length + 1

/-- Adds a process, as number `nextPid`. -/
def addProcess (r : Residency) (process : Process) : Residency :=
  { r with processes := r.processes ++ [some process] }

/-- The page table of a registered process. -/
def table? (r : Residency) (pid : Pid) : Option PageTable :=
  ((r.process? pid).filter (·.registered)).map (·.table)

/-- Replaces the page table of a process. -/
def setTable (r : Residency) (pid : Pid) (table : PageTable) : Residency :=
  r.updateProcess pid fun process => { process with table }

/-- Replaces the entry of a page. -/
def setEntry (r : Residency) (pid : Pid) (vpn : Vpn) (entry : PageEntry) : Residency :=
  r.updateProcess pid fun process => { process with table := process.table.set vpn entry }

/-- Takes all content from the pages of a process, and hides its page table from
    the frame side. -/
def retire (r : Residency) (pid : Pid) : Residency :=
  r.updateProcess pid fun process =>
    { process with table := process.table.discarded, registered := false }

/-- Writes the reference bits of a TLB copy back to the page that the frame table
    records for its frame, and to that record. -/
def reconcile (r : Residency) (hw : Mapping) : Checked Residency := do
  if !hw.valid then
    return r
  let info ← r.frames.lookup hw.ppn
  match info.owner with
  | none => return r
  | some owner =>
    match (r.table? owner).bind (·.merge info.mapping.vpn hw.ppn hw) with
    | none => return r
    | some (entry, table) =>
      let frames ← r.frames.record hw.ppn entry.mapping
      return { r.setTable owner table with frames }

/-- Writes several TLB copies back. -/
def reconcileAll (r : Residency) (copies : List Mapping) : Checked Residency :=
  copies.foldlM reconcile r

/-- Turns off the `used` bit of a spared page in its page table. -/
def clearSpared (r : Residency) (spared : Spared) : Residency :=
  match r.table? spared.owner with
  | none => r
  | some table => r.setTable spared.owner (table.clearUsed spared.vpn spared.frame)

/-- Moves the hand to a victim, and gives its frame and owner. -/
def selectVictim (r : Residency) : Checked (Option (Frame × Pid) × Residency) := do
  let sweep ← r.frames.selectVictim r.hand
  let r := { r with frames := sweep.frames, hand := sweep.hand }
  return (sweep.victim, sweep.spared.foldl clearSpared r)

end Residency

end DemandPaging
