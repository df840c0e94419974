/-
  The second-chance sweep that picks a frame to evict.

  A hand goes round the frame table.  Frames that are pinned or have no owner are
  passed over; a frame whose `used` bit is on loses the bit and is spared this
  time; the first other frame is the victim.  Two full turns suffice: after one
  turn no frame the hand may take has its bit on.

  The place of the hand is a 64-bit number and a frame has a 32-bit one: the hand
  points to the frame that the low bits of its place name.
-/
import DemandPaging.FrameTable

namespace DemandPaging

/-- A frame that was spared, and the page in it. -/
structure Spared where
  owner : Pid
  vpn : Vpn
  frame : Frame
deriving DecidableEq, Repr

/-- What a sweep ends with: the victim and its owner, the frames spared on the
    way in their order, the frame table, and the place of the hand. -/
structure Sweep where
  victim : Option (Frame × Pid)
  spared : List Spared
  frames : FrameTable
  hand : Nat
deriving Repr

namespace Sweep

/-- The frame that the hand points to. -/
def frameAt (hand : Nat) : Frame := hand % limit32

/-- At most `steps` steps of the hand. -/
def steps : Nat → FrameTable → Nat → Checked Sweep
  | 0, frames, hand => .ok ⟨none, [], frames, hand⟩
  | n + 1, frames, hand => do
    let info ← frames.lookup (frameAt hand)
    let next := (hand + 1) % frames.size
    match info.owner with
    | none => steps n frames next
    | some owner =>
      if info.isPinned then
        steps n frames next
      else if info.mapping.used then
        let sweep ← steps n (← frames.clearUsed (frameAt hand)) next
        return { sweep with spared := ⟨owner, info.mapping.vpn, frameAt hand⟩ :: sweep.spared }
      else
        return ⟨some (frameAt hand, owner), [], frames, next⟩

end Sweep

/-- Looks for a victim from the hand on.  There is none only if no frame is both
    owned and unpinned. -/
def FrameTable.selectVictim (frames : FrameTable) (hand : Nat) : Checked Sweep :=
  Sweep.steps (2 * frames.size) frames hand

end DemandPaging
