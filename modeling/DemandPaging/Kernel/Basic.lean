/-
  The state of the kernel, and how it starts.

  A kernel manages one machine: main memory, the TLB, the frames and the
  processes mapped to them, the swap area, and the sections that executables are
  made of.  Its operations are actions on this state (`KernelM`): an error keeps
  the state, a violation stops the machine.
-/
import DemandPaging.Address
import DemandPaging.Config
import DemandPaging.Residency
import DemandPaging.PhysicalMemory
import DemandPaging.Section
import DemandPaging.SwapFile
import DemandPaging.SwapSpace
import DemandPaging.Tlb

namespace DemandPaging

/-- The state of the kernel, over a store `σ` for the swap area.  The counts of page faults and of
    evictions are numbers without a bound: 64 bits hold them, as each of them grows by one at a time
    and no run comes to 2^64 such events. -/
structure Kernel (σ : Type) where
  config : Config
  memory : PhysicalMemory
  residency : Residency
  swap : SwapSpace σ
  tlb : Tlb
  choices : Choices := {}
  sections : List Section := []
  pageFaults : Nat := 0
  evictions : Nat := 0

/-- An operation of the kernel. -/
abbrev KernelM (σ α : Type) := Action (Kernel σ) PagingError α

/-- The state of memory in numbers. -/
structure MemoryStats where
  freeFrames : Nat
  ownedFrames : Nat
  pinnedFrames : Nat
  swapSlotsInUse : Nat
  swapReads : Nat
  swapWrites : Nat
  pageFaults : Nat
  evictions : Nat
deriving DecidableEq, Repr

/-- The numbers, each with its name. -/
def MemoryStats.fields (stats : MemoryStats) : List (String × Nat) :=
  [("free_frames", stats.freeFrames), ("owned_frames", stats.ownedFrames),
    ("pinned_frames", stats.pinnedFrames), ("swap_slots_in_use", stats.swapSlotsInUse),
    ("swap_reads", stats.swapReads), ("swap_writes", stats.swapWrites),
    ("page_faults", stats.pageFaults), ("evictions", stats.evictions)]

/-- The numbers on one line. -/
def MemoryStats.render (stats : MemoryStats) : String :=
  "MemoryStats \x7b "
    ++ ", ".intercalate (stats.fields.map fun (name, value) => s!"{name}: {value}") ++ " \x7d"

namespace Kernel

variable {σ α : Type}

/-! ## Start -/

/-- A kernel with all frames free and no processes. -/
def boot (pageSize : Nat) (config : Config) (store : σ) (sections : List Section)
    (picks : List Nat) : Checked (Kernel σ) := do
  let memory ← PhysicalMemory.create pageSize config.physPages
  let frames ← FrameTable.create config.physPages
  let tlb ← Tlb.create config.tlbSize
  return {
    config, memory, tlb, sections
    residency := { frames }
    swap := { pageSize, store }
    choices := { pending := picks } }

/-- A kernel that swaps to the file named in its configuration, the first file in
    its directory. -/
def bootWithSwapFile (pageSize : Nat) (config : Config) (sections : List Section)
    (picks : List Nat) : Attempt PagingError (Kernel FileStore) := do
  match ← ((FileStore.create config.swapFile none).run : Checked (Except IoError FileStore)) with
  | .error e => throw (.swap (.io e))
  | .ok store => boot pageSize config store sections picks

/-! ## Observations -/

/-- The size of a page. -/
def pageSize (k : Kernel σ) : Nat := k.memory.pageSize

/-- The state of memory in numbers. -/
def stats (k : Kernel σ) : MemoryStats where
  freeFrames := k.residency.frames.freeFrames
  ownedFrames := k.residency.frames.ownedFrames
  pinnedFrames := k.residency.frames.pinnedFrames
  swapSlotsInUse := k.swap.slots.inUse
  swapReads := k.swap.reads
  swapWrites := k.swap.writes
  pageFaults := k.pageFaults
  evictions := k.evictions

/-- The sections with the given numbers. -/
def executable (k : Kernel σ) (sections : List SectionId) : Checked Executable :=
  match sections.mapM (k.sections[·]?) with
  | some exe => .ok exe
  | none => Violation.index.stop

/-! ## Parts of the state -/

/-- Changes which page is where. -/
def onResidency (f : Residency → Checked Residency) : KernelM σ Unit := do
  let k ← get
  set { k with residency := ← f k.residency }

/-- Changes the frame table. -/
def onFrames (f : FrameTable → Checked FrameTable) : KernelM σ Unit :=
  onResidency fun r => do return { r with frames := ← f r.frames }

/-- Reads main memory. -/
def reading (op : PhysicalMemory → Attempt MemoryError α) : KernelM σ α := do
  Action.ofAttempt .memory (op (← get).memory)

/-- Writes main memory. -/
def writing (op : PhysicalMemory → Attempt MemoryError PhysicalMemory) : KernelM σ Unit := do
  let memory ← reading op
  modify fun k => { k with memory }

/-- Uses the swap area. -/
def onSwap (act : Action (SwapSpace σ) StoreError α) : KernelM σ α :=
  Action.within (·.swap) (fun swap k => { k with swap }) .swap act

/-- Uses a section. -/
def onSection (sectionId : SectionId) (act : Action Section SectionError α) : KernelM σ α := do
  match (← get).sections[sectionId]? with
  | none => Violation.index.stop
  | some s =>
    Action.within (fun _ => s)
      (fun s k => { k with sections := k.sections.set sectionId s }) .image act

/-- A process that has not been dropped. -/
def process (pid : Pid) : KernelM σ Process := do
  match (← get).residency.process? pid with
  | some process => return process
  | none => throw (.processExited pid)

/-- A process that has not exited. -/
def liveProcess (pid : Pid) : KernelM σ Process := do
  let process ← process pid
  if process.exited then
    throw (.processExited pid)
  return process

end Kernel

end DemandPaging
