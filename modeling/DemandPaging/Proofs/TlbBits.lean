/-
  The bits in the TLB.

  Taken together with what has been written back, the TLB has the same bits before and after
  a harvest, a shoot-down and a flush.  A slot that is overwritten gives up the bits of its
  old mapping and adds those of the new one.
-/
import DemandPaging.Proofs.Settle
import DemandPaging.Proofs.TlbCoherence

namespace DemandPaging

variable {b : Mapping → Bool} {copies more : List Mapping} {m : Mapping} {f : Frame}

/-- Some copy of the mapping to frame `f` has the bit `b` on. -/
def bitIn (b : Mapping → Bool) (copies : List Mapping) (f : Frame) : Bool :=
  copies.any fun m => m.valid && m.ppn == f && b m

theorem usedIn_eq : usedIn copies f = bitIn (·.used) copies f := rfl

theorem dirtyIn_eq : dirtyIn copies f = bitIn (·.dirty) copies f := rfl

theorem bitIn_append : bitIn b (copies ++ more) f = (bitIn b copies f || bitIn b more f) :=
  List.any_append

theorem bitIn_eq_false (h : ∀ m ∈ copies, m.valid = true → m.ppn ≠ f) : bitIn b copies f = false := by
  rw [bitIn, List.any_eq_false]
  intro m hm hbit
  simp only [Bool.and_eq_true, beq_iff_eq] at hbit
  exact h m hm hbit.1.1 hbit.1.2

/-- Replacing an item of a list. -/
theorem any_set {α : Type} {p : α → Bool} {list : List α} {i : Nat} {a a' : α}
    (h : list[i]? = some a) : (p a || (list.set i a').any p) = (p a' || list.any p) := by
  induction list generalizing i with
  | nil => cases h
  | cons x rest ih =>
    cases i with
    | zero =>
      cases h
      simp only [List.set_cons_zero, List.any_cons]
      exact Bool.or_left_comm ..
    | succ i =>
      have hrest := ih h
      simp only [List.set_cons_succ, List.any_cons]
      rw [Bool.or_left_comm, hrest]
      exact Bool.or_left_comm ..

namespace Tlb

variable {tlb : Tlb} {r : Residency} {slot : TlbSlot} {pid : Pid} {i : Nat}

/-- The mappings that are harvested have the bits of all. -/
theorem bit_harvested : bitIn b tlb.harvest.1 f = bitIn b tlb.mappings f := by
  unfold bitIn harvest
  rw [List.any_filter]
  refine congrArg (List.any tlb.mappings) (funext fun m => ?_)
  cases m.valid <;> rfl

theorem usedIn_harvest : usedIn tlb.harvest.2.mappings f = false := by
  rw [usedIn, List.any_eq_false]
  intro m hm hbit
  obtain ⟨s, hs, rfl⟩ := List.mem_map.1 hm
  obtain ⟨s₀, -, rfl⟩ := List.mem_map.1 hs
  cases hv : s₀.mapping.valid <;> simp [hv, TlbSlot.unused] at hbit

theorem used_harvest :
    usedIn (tlb.harvest.1 ++ tlb.harvest.2.mappings) f = usedIn tlb.mappings f := by
  rw [usedIn_append, usedIn_harvest, Bool.or_false]
  exact bit_harvested

theorem dirty_harvest :
    dirtyIn (tlb.harvest.1 ++ tlb.harvest.2.mappings) f = dirtyIn tlb.mappings f := by
  have hleft : dirtyIn tlb.harvest.1 f = dirtyIn tlb.mappings f := bit_harvested
  have hright : dirtyIn tlb.harvest.2.mappings f = dirtyIn tlb.mappings f := by
    unfold dirtyIn harvest mappings
    rw [List.map_map, List.any_map, List.any_map]
    refine congrArg (List.any tlb.slots) (funext fun s => ?_)
    cases hv : s.mapping.valid <;> simp [hv, TlbSlot.unused]
  rw [dirtyIn_append, hleft, hright, Bool.or_self]

/-- Every valid slot has a process, so that what it holds is given out. -/
theorem Coherent.bit_takeWhere (h : tlb.Coherent r) {p : TlbSlot → Bool} :
    bitIn b ((tlb.takeWhere p).1.map (·.2) ++ (tlb.takeWhere p).2.mappings) f =
      bitIn b tlb.mappings f := by
  have hslots : ∀ slots : List TlbSlot,
      (∀ s ∈ slots, s.mapping.valid = true → ∃ pid, s.owner = some pid) →
      bitIn b ((Tlb.takeWhere ⟨slots⟩ p).1.map (·.2) ++ (Tlb.takeWhere ⟨slots⟩ p).2.mappings) f =
        bitIn b (Tlb.mappings ⟨slots⟩) f := by
    intro slots
    induction slots with
    | nil => intro _; rfl
    | cons s rest ih =>
      intro htag
      have hrest := ih fun s' hs' => htag s' (List.mem_cons_of_mem s hs')
      rw [bitIn_append] at hrest ⊢
      have hs := htag s List.mem_cons_self
      simp only [Tlb.takeWhere, mappings, List.filterMap_cons, List.map_cons] at hrest ⊢
      by_cases hgo : (s.mapping.valid && p s) = true
      · obtain ⟨hv, -⟩ : s.mapping.valid = true ∧ p s = true := by simpa using hgo
        obtain ⟨pid, ho⟩ := hs hv
        have hheld : s.held = some (pid, s.mapping) := by simp [TlbSlot.held, hv, ho]
        simp only [hgo, if_true, hheld, List.map_cons]
        unfold bitIn at hrest ⊢
        rw [List.any_cons, List.any_cons, List.any_cons, Bool.or_assoc]
        have hout : s.emptied.mapping.valid = false := rfl
        rw [hout, Bool.false_and, Bool.false_and, Bool.false_or, hrest]
      · simp only [hgo, Bool.false_eq_true, if_false]
        unfold bitIn at hrest ⊢
        rw [List.any_cons, Bool.or_left_comm, hrest, List.any_cons]
  refine hslots tlb.slots fun s hs hv => ?_
  obtain ⟨pid, ho, -⟩ := h.tagged hs hv
  exact ⟨pid, ho⟩

/-- Nothing stays in a buffer that is drained. -/
theorem valid_drain {slot : TlbSlot} (hslot : slot ∈ tlb.drain.2.slots) :
    slot.mapping.valid = false := by
  obtain ⟨s, -, rfl⟩ := List.mem_map.1 hslot
  split
  · rfl
  · next hv => simpa using hv

/-- Only `used` bits are turned off by a harvest. -/
theorem map_unused_harvest : tlb.harvest.2.slots.map TlbSlot.unused = tlb.slots.map TlbSlot.unused := by
  rw [harvest, List.map_map]
  refine List.map_congr_left fun slot _ => ?_
  simp only [Function.comp]
  split <;> rfl

theorem used_of_harvest {slot : TlbSlot} (hslot : slot ∈ tlb.harvest.2.slots)
    (hv : slot.mapping.valid = true) : slot.mapping.used = false := by
  obtain ⟨s, -, rfl⟩ := List.mem_map.1 hslot
  split at hv
  · next hsv => rw [if_pos hsv]; rfl
  · next hsv => exact absurd hv hsv

/-- The mappings that are drained have the bits of all. -/
theorem Coherent.bit_drained (h : tlb.Coherent r) :
    bitIn b (tlb.drain.1.map (·.2)) f = bitIn b tlb.mappings f := by
  have hrest : bitIn b tlb.drain.2.mappings f = false := bitIn_eq_false fun m hm hv => by
    obtain ⟨slot, hslot, rfl⟩ := List.mem_map.1 hm
    cases (valid_drain hslot).symm.trans hv
  have hall := h.bit_takeWhere (b := b) (f := f) (p := fun _ => true)
  rwa [bitIn_append, ← drain, hrest, Bool.or_false] at hall

/-- A slot that is overwritten. -/
theorem bit_set {o : Option Pid} (hslot : tlb.slots[i]? = some slot) :
    (bitIn b [slot.mapping] f || bitIn b (Tlb.mappings ⟨tlb.slots.set i ⟨m, o⟩⟩) f) =
      (bitIn b [m] f || bitIn b tlb.mappings f) := by
  have hget : tlb.mappings[i]? = some slot.mapping := by rw [mappings, List.getElem?_map, hslot]; rfl
  have hset : Tlb.mappings ⟨tlb.slots.set i ⟨m, o⟩⟩ = tlb.mappings.set i m := List.map_set
  rw [hset]
  unfold bitIn
  simp only [List.any_cons, List.any_nil, Bool.or_false]
  exact any_set (p := fun m => m.valid && m.ppn == f && b m) hget

/-- A slot whose mapping only gains bits adds those of the new mapping. -/
theorem bit_gained {o : Option Pid} (hslot : tlb.slots[i]? = some slot)
    (hm : bitIn b [slot.mapping] f = true → bitIn b [m] f = true) :
    bitIn b (Tlb.mappings ⟨tlb.slots.set i ⟨m, o⟩⟩) f = bitIn b (tlb.mappings ++ [m]) f := by
  have hset := bit_set (b := b) (f := f) (m := m) (o := o) hslot
  have hmem : bitIn b [m] f = true → bitIn b (Tlb.mappings ⟨tlb.slots.set i ⟨m, o⟩⟩) f = true := by
    intro hbit
    have hlt := (List.getElem?_eq_some_iff.1 hslot).1
    simp only [bitIn, List.any_cons, List.any_nil, Bool.or_false] at hbit
    refine List.any_eq_true.2 ⟨m, List.mem_map.2 ⟨⟨m, o⟩, ?_, rfl⟩, hbit⟩
    exact List.mem_iff_getElem?.2 ⟨i, List.getElem?_set_self hlt⟩
  rw [bitIn_append, Bool.or_comm (bitIn b tlb.mappings f), ← hset]
  cases hold : bitIn b [slot.mapping] f with
  | false => rw [Bool.false_or]
  | true => rw [Bool.true_or, hmem (hm hold)]

end Tlb

/-! ## Settling -/

namespace Residency

variable {pins : Frame → Nat} {r : Residency} {pid : Pid} {v : Vpn} {e : PageEntry}

theorem settle_eq : r.settle copies = (r.absorb copies).map PageEntry.tidy id := by
  rw [absorb, map_map]
  rfl

/-- Copies that have been written back are settled with the others. -/
theorem settle_absorb : (r.absorb copies).settle more = r.settle (copies ++ more) := by
  rw [settle_eq, settle_eq, absorb_absorb]

/-- Only the bits that copies add count. -/
theorem Coherent.settle_congr (h : r.Coherent pins none)
    (hbits : ∀ {pid v e f}, r.page? pid v = some e → e.state = .resident f →
      (e.used || usedIn copies f) = (e.used || usedIn more f) ∧
        (e.dirty || dirtyIn copies f) = (e.dirty || dirtyIn more f)) :
    r.settle copies = r.settle more := by
  rw [settle_eq, settle_eq, h.absorb_congr hbits]

/-- Without copies settled frames and pages stay as they are. -/
theorem settle_settle : (r.settle copies).settle [] = r.settle copies := by
  rw [settle_eq, absorb_nil, settle_eq, map_map]
  have htidy : PageEntry.tidy ∘ PageEntry.tidy = PageEntry.tidy := by
    funext e
    cases h : e.state <;> simp [PageEntry.tidy, h]
  rw [htidy]
  rfl

end Residency

end DemandPaging
