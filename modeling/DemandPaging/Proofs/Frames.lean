/-
  The frame table seen frame by frame.

  `info?` is the record of a frame and `put` replaces it.  Every operation on a frame is
  a `put`, and a change of the pool where the frame leaves it or comes back.  Frames have
  32-bit numbers, so that of a larger table some frames are never in use (`usable`).
-/
import DemandPaging.FrameTable
import DemandPaging.Proofs.Ends

namespace DemandPaging.FrameTable

variable {table : FrameTable} {f g : Frame} {i j : FrameInfo}

/-- The record of a frame, if there is such a frame. -/
def info? (table : FrameTable) (f : Frame) : Option FrameInfo := table.frames.get? f

/-- The table with the record of a frame replaced. -/
def put (table : FrameTable) (f : Frame) (info : FrameInfo) : FrameTable :=
  { table with frames := table.frames.set f info }

theorem info?_eq : table.info? f = table.frames.toList[f]? := table.frames.get?_eq f

theorem lt_size_iff : f < table.size ↔ ∃ i, table.info? f = some i := by
  rw [info?_eq, size, Row.size_eq, ← Option.isSome_iff_exists]
  simp

theorem lt_size (h : table.info? f = some i) : f < table.size := lt_size_iff.2 ⟨i, h⟩

theorem info?_put (h : table.info? f = some i) :
    (table.put f j).info? g = if g = f then some j else table.info? g := by
  have hlt : f < table.frames.toList.length := by simpa [size] using lt_size h
  rw [info?_eq, info?_eq, put, Row.toList_set, List.getElem?_set, if_pos hlt]
  by_cases hg : g = f
  · rw [if_pos hg.symm, if_pos hg]
  · rw [if_neg (Ne.symm hg), if_neg hg]

theorem info?_put_self (h : table.info? f = some i) : (table.put f j).info? f = some j := by
  rw [info?_put h, if_pos rfl]

theorem info?_put_ne (h : g ≠ f) : (table.put f j).info? g = table.info? g := by
  rw [info?_eq, info?_eq, put, Row.toList_set, List.getElem?_set_ne (Ne.symm h)]

@[simp] theorem pool_put : (table.put f j).pool = table.pool := rfl

@[simp] theorem size_put : (table.put f j).size = table.size := by
  simp [size, put]

/-- The number of frames that are ever in use: those that the pool starts with.  All others are
    surplus. -/
def usable (table : FrameTable) : Nat := table.size % limit32

theorem usable_le : table.usable ≤ table.size := Nat.mod_le _ _

theorem usable_lt : table.usable < limit32 := Nat.mod_lt _ (by decide)

@[simp] theorem usable_put : (table.put f j).usable = table.usable := by rw [usable, size_put, usable]

@[simp] theorem put_put : (table.put f i).put f j = table.put f j := by
  unfold put
  congr 1
  exact Row.eq_of_shape (by simp) (by simp)

theorem put_comm (h : g ≠ f) : (table.put f i).put g j = (table.put g j).put f i := by
  unfold put
  congr 1
  refine Row.eq_of_shape (by simp) ?_
  simpa using List.set_comm i j (Ne.symm h)

/-- Putting back the record that is there changes nothing. -/
theorem put_info (h : table.info? f = some i) : table.put f i = table := by
  obtain ⟨frames, pool⟩ := table
  simp only [put, mk.injEq, and_true]
  refine Row.eq_of_shape (by simp) ?_
  rw [info?_eq] at h
  obtain ⟨hlt, rfl⟩ := List.getElem?_eq_some_iff.1 h
  rw [Row.toList_set, List.set_getElem_self]

/-! ## Operations on one frame -/

theorem lookup_eq (h : table.info? f = some i) : table.lookup f = .ok i := by
  unfold info? at h
  rw [lookup, h]

theorem lookup_eq_ok_iff : table.lookup f = .ok i ↔ table.info? f = some i := by
  unfold lookup info?
  cases table.frames.get? f <;> simp [Violation.stop]

theorem update_eq (h : table.info? f = some i) (change : FrameInfo → FrameInfo) :
    table.update f change = .ok (table.put f (change i)) := by
  rw [update, lookup_eq h]
  rfl

theorem assign_eq (h : table.info? f = some i) (owner : Pid) (m : Mapping) :
    table.assign f owner m = .ok (table.put f { i with owner := some owner, mapping := m }) :=
  update_eq h _

theorem record_eq (h : table.info? f = some i) (m : Mapping) :
    table.record f m = .ok (table.put f { i with mapping := m }) :=
  update_eq h _

theorem release_eq (h : table.info? f = some i) :
    table.release f = .ok (table.put f { i with owner := none, mapping := {} }) :=
  update_eq h _

theorem clearUsed_eq (h : table.info? f = some i) :
    table.clearUsed f = .ok (table.put f { i with mapping := { i.mapping with used := false } }) :=
  update_eq h _

theorem pin_eq (h : table.info? f = some i) (hlt : i.pinCount + 1 < limit32) :
    table.pin f = .ok (table.put f { i with pinCount := i.pinCount + 1 }) := by
  rw [pin, lookup_eq h]
  simp only [bind, Except.bind, addBelow, if_pos hlt, update_eq h]

/-- Pins are counted in 32 bits. -/
theorem pin_ends {V : Violation → Prop} {Q : FrameTable → Prop} (h : table.info? f = some i)
    (hV : i.pinCount + 1 < limit32 ∨ V .overflow)
    (hQ : i.pinCount + 1 < limit32 → Q (table.put f { i with pinCount := i.pinCount + 1 })) :
    Checked.Ends V (table.pin f) Q := by
  by_cases hlt : i.pinCount + 1 < limit32
  · rw [pin_eq h hlt]
    exact hQ hlt
  · have hstop : table.pin f = .error .overflow := by
      rw [pin, lookup_eq h]
      simp only [bind, Except.bind, addBelow, if_neg hlt, Violation.stop]
    rw [hstop]
    exact hV.resolve_left hlt

/-- A pin that is not the last of a frame waiting to be freed just goes. -/
theorem unpin_eq (h : table.info? f = some i) (hpos : 0 < i.pinCount)
    (hstay : ¬ (i.pinCount = 1 ∧ i.freeWhenUnpinned = true)) :
    table.unpin f = .ok (table.put f { i with pinCount := i.pinCount - 1 }) := by
  rw [unpin, lookup_eq h]
  simp only [bind, Except.bind, FrameInfo.isPinned, hpos, decide_true, Checked.require, if_true,
    update_eq h, if_neg hstay]
  rfl

/-- A frame without pins that is not in the pool goes to its back, its record reset. -/
theorem giveBack_eq (h : table.info? f = some i) (hpins : i.pinCount = 0)
    (hout : f ∉ table.pool.toList) :
    table.giveBack f = .ok { table.put f {} with pool := table.pool.push f } := by
  rw [giveBack, lookup_eq h]
  have hnot : (table.pool.contains f) = false := by
    rw [FramePool.contains_eq, List.contains_eq_mem]
    exact decide_eq_false hout
  simp only [bind, Except.bind, FrameInfo.isPinned, hpins, Nat.lt_irrefl, decide_false, Bool.not_false,
    Checked.require, if_true, hnot]
  rfl

/-- The last pin of a frame waiting to be freed sends it to the pool. -/
theorem unpin_eq_of_last (h : table.info? f = some i) (hone : i.pinCount = 1)
    (hfree : i.freeWhenUnpinned = true) (hout : f ∉ table.pool.toList) :
    table.unpin f = .ok { table.put f {} with pool := table.pool.push f } := by
  rw [unpin, lookup_eq h]
  simp only [bind, Except.bind, FrameInfo.isPinned, hone, Nat.lt_add_one, decide_true,
    Checked.require, if_true, update_eq h, hfree, and_self, Nat.sub_self]
  rw [giveBack_eq (info?_put_self h) rfl (by simpa using hout), put_put]
  rfl

/-- A frame that is freed while it is pinned waits for its last pin. -/
theorem freeOrDefer_eq_of_pinned (h : table.info? f = some i) (hpins : 0 < i.pinCount) :
    table.freeOrDefer f =
      .ok (table.put f { i with owner := none, mapping := {}, freeWhenUnpinned := true }) := by
  rw [freeOrDefer, release_eq h]
  simp only [bind, Except.bind]
  rw [lookup_eq (info?_put_self h)]
  simp only [FrameInfo.isPinned, hpins, decide_true, if_true]
  rw [update_eq (info?_put_self h), put_put]

theorem freeOrDefer_eq (h : table.info? f = some i) (hpins : i.pinCount = 0)
    (hout : f ∉ table.pool.toList) :
    table.freeOrDefer f = .ok { table.put f {} with pool := table.pool.push f } := by
  rw [freeOrDefer, release_eq h]
  simp only [bind, Except.bind]
  rw [lookup_eq (info?_put_self h)]
  simp only [FrameInfo.isPinned, hpins, Nat.lt_irrefl, decide_false, Bool.false_eq_true, if_false]
  rw [giveBack_eq (info?_put_self h) rfl (by simpa using hout), put_put]
  rfl

/-! ## The frame of a fault -/

section Fault

variable {pid : Pid} {m m' : Mapping}

/-- A frame from the pool is owned and pinned while content is fetched for it. -/
theorem claim_eq (h : table.info? f = some {}) :
    table.assign f pid m = .ok (table.put f ⟨some pid, m, 0, false⟩) ∧
      (table.put f ⟨some pid, m, 0, false⟩).pin f = .ok (table.put f ⟨some pid, m, 1, false⟩) := by
  refine ⟨assign_eq h _ _, ?_⟩
  rw [pin_eq (info?_put_self h) (show 1 < limit32 by decide), put_put]

/-- The content has come, and the page keeps the frame. -/
theorem confirm_eq (h : table.info? f = some i) :
    (table.put f ⟨some pid, m, 1, false⟩).record f m' = .ok (table.put f ⟨some pid, m', 1, false⟩) ∧
      (table.put f ⟨some pid, m', 1, false⟩).unpin f =
        .ok (table.put f ⟨some pid, m', 0, false⟩) := by
  constructor
  · rw [record_eq (info?_put_self h), put_put]
  · rw [unpin_eq (info?_put_self h) Nat.one_pos (by simp), put_put]
    rfl

/-- The content has not come, and the frame goes to the pool. -/
theorem withdraw_eq (h : table.info? f = some i) (hout : f ∉ table.pool.toList) :
    (table.put f ⟨some pid, m, 1, false⟩).release f = .ok (table.put f ⟨none, {}, 1, false⟩) ∧
      (table.put f ⟨none, {}, 1, false⟩).unpin f = .ok (table.put f {}) ∧
        (table.put f {}).giveBack f =
          .ok { table.put f {} with pool := table.pool.push f } := by
  refine ⟨?_, ?_, ?_⟩
  · rw [release_eq (info?_put_self h), put_put]
  · rw [unpin_eq (info?_put_self h) Nat.one_pos (by simp), put_put]
    rfl
  · rw [giveBack_eq (info?_put_self h) rfl hout, put_put]
    rfl

end Fault

/-! ## The pool -/

theorem takeOne_eq_some {table' : FrameTable} (h : table.takeOne = some (f, table')) :
    table'.frames = table.frames ∧ table.pool.toList = f :: table'.pool.toList := by
  unfold takeOne at h
  obtain ⟨⟨f', pool⟩, hpop, heq⟩ := Option.map_eq_some_iff.1 h
  cases heq
  have both := table.pool.pop?_eq
  rw [hpop] at both
  cases hl : table.pool.toList with
  | nil => simp [hl] at both
  | cons a rest =>
    rw [hl] at both
    simp only [Option.map_some, List.head?_cons, List.tail_cons, Option.some.injEq,
      Prod.mk.injEq] at both
    exact ⟨rfl, by rw [both.1, both.2]⟩

theorem takeOne_eq_none : table.takeOne = none ↔ table.pool.toList = [] := by
  have both := table.pool.pop?_eq
  unfold takeOne
  cases hpop : table.pool.pop? with
  | none =>
    rw [hpop] at both
    cases hl : table.pool.toList with
    | nil => simp
    | cons a rest => simp [hl] at both
  | some r =>
    rw [hpop] at both
    cases hl : table.pool.toList with
    | nil => simp [hl] at both
    | cons a rest => simp

/-! ## The numbers of frames -/

theorem mem_frames_iff : i ∈ table.frames.toList ↔ ∃ f, table.info? f = some i := by
  rw [List.mem_iff_getElem?]
  simp only [info?_eq]

theorem ownedFrames_put (h : table.info? f = some i) :
    (table.put f j).ownedFrames + (if i.isOwned then 1 else 0) =
      table.ownedFrames + if j.isOwned then 1 else 0 := by
  rw [info?_eq] at h
  obtain ⟨hlt, hi⟩ := List.getElem?_eq_some_iff.1 h
  rw [ownedFrames, ownedFrames, put, Row.countP_eq, Row.countP_eq, Row.toList_set,
    List.countP_set hlt, hi]
  cases ho : i.isOwned with
  | false => simp
  | true =>
    have hpos : 0 < table.frames.toList.countP (·.isOwned) :=
      List.countP_pos_iff.2 ⟨i, List.mem_of_getElem? h, ho⟩
    simp only [if_true]
    omega

end DemandPaging.FrameTable
