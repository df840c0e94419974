/-
  What is known about each physical frame, and the pool of frames that nobody
  holds.

  The pool is a queue: the frame that has been in it longest leaves first.  A
  frame that is pinned never enters the pool; freeing it is put off until its
  last pin is gone.
-/
import DemandPaging.FramePool
import DemandPaging.Mapping
import DemandPaging.Row

namespace DemandPaging

/-- The record of a frame: the process that owns it, the last mapping
    recorded for it, how often it is pinned, and whether it goes to the pool
    with its last pin. -/
structure FrameInfo where
  owner : Option Pid := none
  mapping : Mapping := {}
  pinCount : Nat := 0
  freeWhenUnpinned : Bool := false
deriving DecidableEq, Repr, Inhabited

/-- The frame has a pin. -/
def FrameInfo.isPinned (info : FrameInfo) : Bool := 0 < info.pinCount

/-- The frame has an owner. -/
def FrameInfo.isOwned (info : FrameInfo) : Bool := info.owner.isSome

/-- The room that the record of a frame takes in a table, in bytes: a mapping,
    two words for the owner, one for the pins, and one that holds the flag. -/
def FrameInfo.recordSize : Nat := Mapping.recordSize + 16

/-- The records of all frames, and the pool, oldest first. -/
structure FrameTable where
  frames : Row FrameInfo
  pool : FramePool
deriving Repr

namespace FrameTable

/-- The frames in the pool, in order.  There are not too many to set their
    records aside in one table.  The pool is filled up to the number of frames
    as 32 bits hold it. -/
def create (numFrames : Nat) : Checked FrameTable := do
  Checked.reserve numFrames FrameInfo.recordSize
  return ⟨Row.ofList (List.replicate numFrames {}), FramePool.create (numFrames % limit32)⟩

/-- The number of frames. -/
def size (table : FrameTable) : Nat := table.frames.size

/-- The number of frames in the pool. -/
def freeFrames (table : FrameTable) : Nat := table.pool.size

/-- The number of frames that have an owner. -/
def ownedFrames (table : FrameTable) : Nat := table.frames.countP (·.isOwned)

/-- The number of frames that are pinned. -/
def pinnedFrames (table : FrameTable) : Nat := table.frames.countP (·.isPinned)

/-- The record of a frame. -/
def lookup (table : FrameTable) (frame : Frame) : Checked FrameInfo :=
  match table.frames.get? frame with
  | some info => .ok info
  | none => Violation.index.stop

/-- Changes the record of a frame. -/
def update (table : FrameTable) (frame : Frame) (f : FrameInfo → FrameInfo) :
    Checked FrameTable := do
  let info ← table.lookup frame
  return { table with frames := table.frames.set frame (f info) }

/-- Takes the oldest frame out of the pool. -/
def takeOne (table : FrameTable) : Option (Frame × FrameTable) :=
  table.pool.pop?.map fun (frame, pool) => (frame, { table with pool })

/-- Puts a frame back into the pool and forgets what was known about it. -/
def giveBack (table : FrameTable) (frame : Frame) : Checked FrameTable := do
  let info ← table.lookup frame
  Checked.require (!info.isPinned) (.framePinned frame)
  Checked.require (!table.pool.contains frame) (.frameFreedTwice frame)
  return ⟨table.frames.set frame {}, table.pool.push frame⟩

/-- Makes process `owner` the holder of a frame, and records a mapping for it. -/
def assign (table : FrameTable) (frame : Frame) (owner : Pid) (mapping : Mapping) :
    Checked FrameTable :=
  table.update frame fun info => { info with owner := some owner, mapping }

/-- Records a mapping for a frame. -/
def record (table : FrameTable) (frame : Frame) (mapping : Mapping) : Checked FrameTable :=
  table.update frame fun info => { info with mapping }

/-- Takes a frame from its owner.  It does not go to the pool. -/
def release (table : FrameTable) (frame : Frame) : Checked FrameTable :=
  table.update frame fun info => { info with owner := none, mapping := {} }

/-- Takes a frame from its owner and returns it to the pool, at once when it is
    not pinned, else with its last pin. -/
def freeOrDefer (table : FrameTable) (frame : Frame) : Checked FrameTable := do
  let table ← table.release frame
  let info ← table.lookup frame
  if info.isPinned then
    table.update frame fun info => { info with freeWhenUnpinned := true }
  else
    table.giveBack frame

/-- Turns off the `used` bit recorded for a frame. -/
def clearUsed (table : FrameTable) (frame : Frame) : Checked FrameTable :=
  table.update frame fun info =>
    { info with mapping := { info.mapping with used := false } }

/-- Pins a frame once more.  Pins are counted in 32 bits. -/
def pin (table : FrameTable) (frame : Frame) : Checked FrameTable := do
  let info ← table.lookup frame
  let pinCount ← addBelow limit32 info.pinCount 1
  table.update frame fun info => { info with pinCount }

/-- Takes one pin off a frame. -/
def unpin (table : FrameTable) (frame : Frame) : Checked FrameTable := do
  let info ← table.lookup frame
  Checked.require info.isPinned (.frameNotPinned frame)
  let table ← table.update frame fun info => { info with pinCount := info.pinCount - 1 }
  if info.pinCount = 1 ∧ info.freeWhenUnpinned then
    table.giveBack frame
  else
    return table

end FrameTable

end DemandPaging
