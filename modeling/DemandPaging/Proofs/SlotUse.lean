/-
  Which slots are in use, told from what was done to them.

  A `SlotEvent` is what a call and its answer tell of the slots.  The events so far say which
  slots are occupied and by whom (`live`), how many were taken and given back, and how many were
  occupied at once at the worst moment (`peak`).  `Records` says that a table of slots agrees with
  its events, and is kept by everything that changes a table (`Records.changed`).

  * `size_allocate`: a table grows only when all its slots are in use;
  * `Records.changed`: what is recorded of a table stays true.
-/
import DemandPaging.Proofs.Slots
import Mathlib.Algebra.GroupWithZero.Nat

namespace DemandPaging

namespace SlotTable

variable {table table' : SlotTable} {s : SlotIndex} {o : SlotOwner} {pid : Pid}

/-! ## Sizes -/

theorem inUse_le_size (table : SlotTable) : table.inUse ≤ table.size := by
  rw [inUse, size, Row.countP_eq, Row.size_eq]
  exact List.countP_le_length

/-- Every slot before the next one has an owner. -/
theorem isSome_owner_of_lt_next {i : Nat} (h : i < table.next) :
    (table.owner i).isSome = true := by
  have hlt : i < table.slots.toList.length := Nat.lt_of_lt_of_le h table.next_le_size
  have htaken := taken_of_lt_next h
  rw [owner_eq]
  rw [List.getElem?_eq_getElem hlt] at htaken ⊢
  cases ho : table.slots.toList[i] with
  | none => exact absurd (congrArg some ho) htaken
  | some o => rfl

/-- The next slot is there already unless all slots are in use. -/
theorem next_lt_size_iff (table : SlotTable) :
    table.next < table.size ↔ table.inUse < table.size := by
  rw [next_eq, size, inUse, Row.countP_eq, Row.size_eq, List.findIdx_lt_length,
    Nat.lt_iff_le_and_ne, and_iff_right List.countP_le_length, ne_eq, List.countP_eq_length]
  simp only [not_forall, Bool.not_eq_true, Option.isSome_eq_false_iff, exists_prop]

/-- A table grows only when all its slots are in use. -/
theorem size_allocate : (table.allocate o).2.size = max table.size (table.inUse + 1) := by
  have hplace : (table.allocate o).2.slots = place table.slots table.next o := rfl
  have hnext := table.next_lt_size_iff
  have hle := table.inUse_le_size
  rw [size, hplace, place]
  change (if table.next < table.size then _ else _ : Row (Option SlotOwner)).size = _
  split
  · next hlt =>
    rw [Row.size_eq, Row.toList_set, List.length_set, ← Row.size_eq, ← size]
    omega
  · next hge =>
    rw [Row.size_eq, Row.toList_push, List.length_append, List.length_singleton, ← Row.size_eq,
      ← size]
    omega

/-- A slot that is given out is within the table. -/
theorem next_lt_size_allocate : table.next < (table.allocate o).2.size :=
  lt_size (by rw [owner_allocate, if_pos rfl]; rfl)

/-- `slot` was the first slot that was free, and all that has happened is that `owner` got it. -/
structure GivenOut (table : SlotTable) (owner : SlotOwner) (slot : SlotIndex)
    (table' : SlotTable) : Prop where
  free : table.owner slot = none
  least : ∀ t < slot, (table.owner t).isSome = true
  owners : ∀ t, table'.owner t = if t = slot then some owner else table.owner t

theorem givenOut_allocate : table.GivenOut o table.next (table.allocate o).2 :=
  ⟨owner_next, fun _ => isSome_owner_of_lt_next, fun _ => owner_allocate⟩

theorem size_deallocateOwnedBy : (table.deallocateOwnedBy pid).2.size = table.size := by
  rw [size, size, Row.size_eq, Row.size_eq, deallocateOwnedBy, Row.toList_map, List.length_map]

/-- As many slots as were freed at once are no longer in use. -/
theorem inUse_deallocateOwnedBy (table : SlotTable) (pid : Pid) :
    (table.deallocateOwnedBy pid).2.inUse + (table.deallocateOwnedBy pid).1 = table.inUse := by
  simp only [inUse, deallocateOwnedBy, Row.countP_eq, Row.toList_map, List.countP_map]
  induction table.slots.toList with
  | nil => rfl
  | cons slot rest ih =>
    rw [List.countP_cons, List.countP_cons, List.countP_cons, ← ih]
    cases slot with
    | none => simp [belongsTo]
    | some o =>
      by_cases ho : o.pid = pid
      · simp [belongsTo, ho, Nat.add_assoc]
      · simp [belongsTo, ho, Nat.add_right_comm]

end SlotTable

/-! ## Events -/

/-- What a call and its answer tell of the slots. -/
inductive SlotEvent where
  | took (slot : SlotIndex) (owner : SlotOwner)
  /-- A slot was given out and at once taken back, since the store had refused the page. -/
  | tried
  | gave (slot : SlotIndex)
  /-- All slots of a process were freed, as many as `count`. -/
  | swept (pid : Pid) (count : Nat)
deriving DecidableEq, Repr

namespace SlotEvent

/-- The slots that are occupied, each with its owner.  The last event comes first. -/
def live : List SlotEvent → List (SlotIndex × SlotOwner)
  | [] => []
  | took s o :: earlier => (s, o) :: live earlier
  | tried :: earlier => live earlier
  | gave s :: earlier => (live earlier).filter fun slot => slot.1 ≠ s
  | swept pid _ :: earlier => (live earlier).filter fun slot => slot.2.pid ≠ pid

/-- How many slots an event has taken for good. -/
def takes : SlotEvent → Nat
  | took _ _ => 1
  | tried | gave _ | swept _ _ => 0

/-- How many slots an event says it has given back. -/
def gives : SlotEvent → Nat
  | took _ _ | tried => 0
  | gave _ => 1
  | swept _ count => count

/-- The largest number of slots that were occupied at the same moment. -/
def peak : List SlotEvent → Nat
  | [] => 0
  | tried :: earlier => max (peak earlier) ((live earlier).length + 1)
  | event :: earlier => max (peak earlier) (live (event :: earlier)).length

end SlotEvent

namespace SlotTable

open SlotEvent

variable {table table' : SlotTable} {event : SlotEvent} {events : List SlotEvent}

/-- What becomes of a table. -/
inductive Changed (table : SlotTable) : SlotEvent → SlotTable → Prop where
  | took {o} : Changed table (.took table.next o) (table.allocate o).2
  | tried {o table'} (h : (table.allocate o).2.deallocate table.next = .ok table') :
    Changed table .tried table'
  | gave {s table'} (h : table.deallocate s = .ok table') : Changed table (.gave s) table'
  | swept {pid} :
    Changed table (.swept pid (table.deallocateOwnedBy pid).1) (table.deallocateOwnedBy pid).2

/-- No slot ever goes away. -/
theorem Changed.size_le (h : Changed table event table') : table.size ≤ table'.size := by
  cases h with
  | took => exact size_allocate ▸ Nat.le_max_left _ _
  | tried h => exact (deallocate_eq_ok h).2.1 ▸ size_allocate ▸ Nat.le_max_left _ _
  | gave h => exact Nat.le_of_eq (deallocate_eq_ok h).2.1.symm
  | swept => exact Nat.le_of_eq size_deallocateOwnedBy.symm

/-- The table is as its events say. -/
structure Records (events : List SlotEvent) (table : SlotTable) : Prop where
  /-- No slot is occupied twice. -/
  distinct : ((live events).map Prod.fst).Nodup
  occupied : ∀ s o, table.owner s = some o ↔ (s, o) ∈ live events
  counted : table.inUse + (events.map gives).sum = (events.map takes).sum
  size_eq : table.size = peak events

namespace Records

theorem of_no_slots (h : table.size = 0) : Records [] table where
  distinct := List.nodup_nil
  occupied s o := by
    refine iff_of_false (fun ho => ?_) List.not_mem_nil
    have hlt : s < table.size := lt_size (by rw [ho]; rfl)
    exact Nat.not_lt_zero s (h ▸ hlt)
  counted := Nat.le_zero.1 (h ▸ table.inUse_le_size)
  size_eq := h

/-- As many slots are in use as are occupied. -/
theorem inUse_eq (h : Records events table) : table.inUse = (live events).length := by
  have hlength : ((live events).map Prod.fst).length = (live events).length := List.length_map _
  rw [← hlength]
  refine inUse_eq_length h.distinct fun s => ?_
  rw [Option.isSome_iff_exists, List.mem_map]
  constructor
  · rintro ⟨⟨_, o⟩, hmem, rfl⟩
    exact ⟨o, (h.occupied _ o).2 hmem⟩
  · rintro ⟨o, ho⟩
    exact ⟨(s, o), (h.occupied s o).1 ho, rfl⟩

/-- Slots that are freed make no new peak. -/
theorem size_of_filter (h : Records events table) (p : SlotIndex × SlotOwner → Bool) :
    table.size = max (peak events) ((live events).filter p).length := by
  have hfewer := (live events).length_filter_le p
  have hinUse := table.inUse_le_size
  rw [h.inUse_eq] at hinUse
  rw [← h.size_eq]
  omega

theorem took {o : SlotOwner} (h : Records events table) :
    Records (.took table.next o :: events) (table.allocate o).2 := by
  have hfree : ∀ o', (table.next, o') ∉ live events := by
    intro o' hlive
    cases owner_next.symm.trans ((h.occupied _ o').2 hlive)
  refine ⟨?_, fun s o' => ?_, ?_, ?_⟩
  · refine List.nodup_cons.2 ⟨fun hmem => ?_, h.distinct⟩
    obtain ⟨⟨s, o'⟩, hlive, rfl⟩ := List.mem_map.1 hmem
    exact hfree o' hlive
  · rw [owner_allocate, live, List.mem_cons, Prod.mk.injEq]
    split
    · next hs =>
      rw [Option.some.injEq, hs]
      exact ⟨fun heq => .inl ⟨rfl, heq.symm⟩, fun hor => hor.elim (·.2.symm) (absurd · (hfree o'))⟩
    · next hs =>
      rw [h.occupied]
      exact ⟨.inr, fun hor => hor.elim (absurd ·.1 hs) id⟩
  · have hcounted := h.counted
    rw [inUse_allocate]
    simp only [List.map_cons, List.sum_cons, gives, takes]
    omega
  · rw [size_allocate, h.inUse_eq, h.size_eq]
    rfl

theorem tried {o : SlotOwner} (h : Records events table)
    (hfree : (table.allocate o).2.deallocate table.next = .ok table') :
    Records (.tried :: events) table' := by
  have howner := owner_tried hfree
  refine ⟨h.distinct, fun s o => ?_, ?_, ?_⟩
  · rw [howner]
    exact h.occupied s o
  · rw [inUse_congr howner]
    simpa only [List.map_cons, List.sum_cons, gives, takes, Nat.zero_add] using h.counted
  · rw [(deallocate_eq_ok hfree).2.1, size_allocate, h.inUse_eq, h.size_eq]
    rfl

theorem gave {s : SlotIndex} (h : Records events table) (hfree : table.deallocate s = .ok table') :
    Records (.gave s :: events) table' := by
  obtain ⟨⟨o, ho⟩, hsize, howner⟩ := deallocate_eq_ok hfree
  refine ⟨h.distinct.sublist (List.filter_sublist.map _), fun t o' => ?_, ?_, ?_⟩
  · rw [howner, live, List.mem_filter, ← h.occupied]
    by_cases ht : t = s <;> simp [ht]
  · have hcounted := h.counted
    have hfreed := inUse_freed ho howner
    simp only [List.map_cons, List.sum_cons, gives, takes]
    omega
  · rw [hsize]
    exact h.size_of_filter _

theorem swept {pid : Pid} (h : Records events table) :
    Records (.swept pid (table.deallocateOwnedBy pid).1 :: events)
      (table.deallocateOwnedBy pid).2 := by
  refine ⟨h.distinct.sublist (List.filter_sublist.map _), fun t o => ?_, ?_, ?_⟩
  · rw [owner_deallocateOwnedBy, live, List.mem_filter, ← h.occupied, Option.filter_eq_some_iff]
  · have hcounted := h.counted
    have hfreed := table.inUse_deallocateOwnedBy pid
    simp only [List.map_cons, List.sum_cons, gives, takes]
    omega
  · rw [size_deallocateOwnedBy]
    exact h.size_of_filter _

/-- What is recorded of a table stays true. -/
theorem changed (h : Records events table) (hch : Changed table event table') :
    Records (event :: events) table' := by
  cases hch with
  | took => exact h.took
  | tried hfree => exact h.tried hfree
  | gave hfree => exact h.gave hfree
  | swept => exact h.swept

end Records

end SlotTable

end DemandPaging
