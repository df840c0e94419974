/-
  The pool of frames that nobody holds.

  The pool is a queue in which no frame stands twice.  At its front are the frames
  that were never taken, in order; behind them wait those that came back, which are
  also known by number, so that looking a frame up does not go through the queue.
  `FramePool.toList` is the whole queue, and each operation is an operation on it
  (`contains_eq`, `toList_push`, `pop?_eq`).
-/
import DemandPaging.Outcome
import DemandPaging.Queue
import Std.Data.TreeSet.Lemmas

namespace DemandPaging

/-- The frames from `first` up to `stop` that were never taken. -/
def freshFrames (first stop : Nat) : List Frame := List.range' first (stop - first)

theorem freshFrames_of_lt {first stop : Nat} (h : first < stop) :
    freshFrames first stop = first :: freshFrames (first + 1) stop := by
  rw [freshFrames, show stop - first = stop - (first + 1) + 1 by omega, List.range'_succ,
    freshFrames]

theorem freshFrames_of_not_lt {first stop : Nat} (h : ¬ first < stop) :
    freshFrames first stop = [] := by
  rw [freshFrames, show stop - first = 0 by omega, List.range'_zero]

theorem mem_freshFrames {first stop frame : Nat} :
    frame ∈ freshFrames first stop ↔ first ≤ frame ∧ frame < stop := by
  rw [freshFrames, List.mem_range'_1]
  omega

/-- A queue of different frames. -/
structure FramePool where
  first : Nat
  stop : Nat
  returned : Queue Frame
  members : Std.TreeSet Frame
  mem_members : ∀ frame, frame ∈ members ↔ frame ∈ returned.toList
  nodup : (freshFrames first stop ++ returned.toList).Nodup

namespace FramePool

/-- The frames in order, the next to leave first. -/
def toList (pool : FramePool) : List Frame :=
  freshFrames pool.first pool.stop ++ pool.returned.toList

instance : Repr FramePool := ⟨fun pool => reprPrec pool.toList⟩

/-- The frames below `numFrames`, in order. -/
def create (numFrames : Nat) : FramePool where
  first := 0
  stop := numFrames
  returned := {}
  members := .empty
  mem_members frame := by simp [Queue.toList]
  nodup := by simpa [Queue.toList, freshFrames] using List.nodup_range'

/-- The number of frames. -/
def size (pool : FramePool) : Nat := (pool.stop - pool.first) + pool.returned.size

/-- The frame is in the pool. -/
def contains (pool : FramePool) (frame : Frame) : Bool :=
  (pool.first ≤ frame && frame < pool.stop) || pool.members.contains frame

@[simp] theorem contains_eq (pool : FramePool) (frame : Frame) :
    pool.contains frame = pool.toList.contains frame := by
  rw [Bool.eq_iff_iff, List.contains_iff_mem, toList, List.mem_append, mem_freshFrames,
    ← pool.mem_members]
  simp [contains, Std.TreeSet.contains_iff_mem]

/-- Adds a frame at the back, unless it is there already. -/
def push (pool : FramePool) (frame : Frame) : FramePool :=
  if h : pool.contains frame then pool
  else
    { pool with
      returned := pool.returned.push frame
      members := pool.members.insert frame
      mem_members other := by
        simp only [Std.TreeSet.mem_insert, Std.LawfulEqCmp.compare_eq_iff_eq, pool.mem_members,
          Queue.toList_push, List.mem_append, List.mem_singleton]
        rw [or_comm, eq_comm]
      nodup := by
        rw [contains_eq, List.contains_iff_mem] at h
        rw [Queue.toList_push, ← List.append_assoc]
        exact List.nodup_append.mpr ⟨pool.nodup, by simp, fun a ha b hb heq =>
          h (List.mem_singleton.mp hb ▸ heq ▸ ha)⟩ }

/-- Takes the frame at the front. -/
def pop? (pool : FramePool) : Option (Frame × FramePool) :=
  if h : pool.first < pool.stop then
    some (pool.first, { pool with
      first := pool.first + 1
      nodup := by
        have distinct := pool.nodup
        rw [freshFrames_of_lt h, List.cons_append, List.nodup_cons] at distinct
        exact distinct.2 })
  else
    match hpop : pool.returned.pop? with
    | none => none
    | some (frame, returned) =>
      some (frame, { pool with
        returned
        members := pool.members.erase frame
        mem_members other := by
          have distinct := pool.nodup
          rw [freshFrames_of_not_lt h, List.nil_append, Queue.toList_of_pop? hpop,
            List.nodup_cons] at distinct
          simp only [Std.TreeSet.mem_erase, ne_eq, Std.LawfulEqCmp.compare_eq_iff_eq,
            pool.mem_members, Queue.toList_of_pop? hpop, List.mem_cons]
          constructor
          · rintro ⟨hne, heq | hmem⟩
            · exact absurd heq.symm hne
            · exact hmem
          · exact fun hmem => ⟨fun heq => distinct.1 (heq ▸ hmem), .inr hmem⟩
        nodup := by
          have distinct := pool.nodup
          rw [freshFrames_of_not_lt h, List.nil_append, Queue.toList_of_pop? hpop,
            List.nodup_cons] at distinct
          rw [freshFrames_of_not_lt h, List.nil_append]
          exact distinct.2 })

@[simp] theorem toList_create (numFrames : Nat) :
    (create numFrames).toList = List.range numFrames := by
  simp [create, toList, freshFrames, Queue.toList, List.range_eq_range']

@[simp] theorem size_eq (pool : FramePool) : pool.size = pool.toList.length := by
  simp [size, toList, freshFrames]

/-- No frame is in the pool twice. -/
theorem nodup_toList (pool : FramePool) : pool.toList.Nodup := pool.nodup

theorem toList_push {pool : FramePool} {frame : Frame} (h : frame ∉ pool.toList) :
    (pool.push frame).toList = pool.toList ++ [frame] := by
  have hnew : ¬ pool.contains frame = true := by rwa [contains_eq, List.contains_iff_mem]
  rw [push, dif_neg hnew, toList, toList, Queue.toList_push, List.append_assoc]

/-- The frame at the front is the first, and the others stay in order. -/
theorem pop?_eq (pool : FramePool) :
    pool.pop?.map (fun (frame, rest) => (frame, rest.toList)) =
      pool.toList.head?.map fun frame => (frame, pool.toList.tail) := by
  have order := pool.returned.pop?_eq
  unfold pop? toList
  split
  · next h => rw [freshFrames_of_lt h]; rfl
  · next h =>
    rw [freshFrames_of_not_lt h]
    split
    · next hpop => rw [hpop] at order; exact order
    · next hpop =>
      rw [hpop] at order
      simpa [freshFrames_of_not_lt h] using order

end FramePool

end DemandPaging
