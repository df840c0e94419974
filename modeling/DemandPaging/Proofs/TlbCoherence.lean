/-
  The TLB agrees with the page tables.

  A valid slot is tagged with a process and holds a faithful mapping of one of its pages;
  an invalid slot has no tag; and no two valid slots lead to one frame.  Putting a mapping
  into the slot that the kernel chooses, emptying slots, and what the hardware does to a
  slot all keep it so.
-/
import DemandPaging.Proofs.Sweep
import DemandPaging.Tlb

namespace DemandPaging

namespace Tlb

variable {pins : Frame → Nat} {r r' : Residency} {tlb tlb' : Tlb} {pid q : Pid} {v : Vpn}
  {f : Frame} {m : Mapping} {slot : TlbSlot} {i j n : Nat} {choices : Choices}

/-- Every valid slot is backed by a page of the process it is tagged with, and is the only
    one that leads to its frame. -/
structure Coherent (r : Residency) (tlb : Tlb) : Prop where
  tagged : ∀ {slot}, slot ∈ tlb.slots → slot.mapping.valid = true →
    ∃ pid, slot.owner = some pid ∧ r.Backs pid slot.mapping
  untagged : ∀ {slot}, slot ∈ tlb.slots → slot.mapping.valid = false → slot.owner = none
  apart : ∀ {i j : Nat} {s t}, tlb.slots[i]? = some s → tlb.slots[j]? = some t →
    s.mapping.valid = true → t.mapping.valid = true → s.mapping.ppn = t.mapping.ppn → i = j

namespace Coherent

/-- Slots in which nothing is valid are backed by anything. -/
theorem blank : (⟨List.replicate n {}⟩ : Tlb).Coherent r := by
  have hblank : ∀ slot ∈ List.replicate n ({} : TlbSlot), slot = {} :=
    fun _ hs => (List.mem_replicate.1 hs).2
  refine ⟨fun hs hv => ?_, fun hs _ => ?_, fun hs _ hv => ?_⟩
  · rw [hblank _ hs] at hv
    cases hv
  · rw [hblank _ hs]
  · rw [hblank _ (List.mem_of_getElem? hs)] at hv
    cases hv

/-- A valid slot holds a mapping of the process that it is known to be tagged with. -/
theorem backs (h : tlb.Coherent r) (hs : slot ∈ tlb.slots) (hv : slot.mapping.valid = true)
    (ho : slot.owner = some pid) : r.Backs pid slot.mapping := by
  obtain ⟨q, hq, hb⟩ := h.tagged hs hv
  cases ho.symm.trans hq
  exact hb

/-- The page tables may change as long as they back what the TLB holds. -/
theorem mono (h : tlb.Coherent r)
    (hback : ∀ {slot pid}, slot ∈ tlb.slots → slot.mapping.valid = true → slot.owner = some pid →
      r.Backs pid slot.mapping → r'.Backs pid slot.mapping) : tlb.Coherent r' := by
  refine ⟨fun hs hv => ?_, h.untagged, h.apart⟩
  obtain ⟨pid, ho, hb⟩ := h.tagged hs hv
  exact ⟨pid, ho, hback hs hv ho hb⟩

theorem absorb {copies : List Mapping} (h : tlb.Coherent r) : tlb.Coherent (r.absorb copies) :=
  h.mono fun _ _ _ hb => hb.absorb

/-- What the TLB holds may be written back. -/
theorem backsAll (h : tlb.Coherent r) : r.BacksAll tlb.mappings := by
  intro m hm hv
  obtain ⟨slot, hs, rfl⟩ := List.mem_map.1 hm
  obtain ⟨pid, -, hb⟩ := h.tagged hs hv
  exact ⟨pid, hb⟩

/-- A slot that leads to the frame of a page belongs to that page. -/
theorem page_of_frame (h : tlb.Coherent r) (hr : r.Coherent pins none) (hb : r.Backs pid m)
    (hs : slot ∈ tlb.slots) (hv : slot.mapping.valid = true) (hf : slot.mapping.ppn = m.ppn) :
    slot.owner = some pid ∧ slot.mapping.vpn = m.vpn := by
  obtain ⟨q, ho, e₁, he₁, hs₁, -⟩ := h.tagged hs hv
  obtain ⟨e, he, hse, -⟩ := hb
  obtain ⟨rfl, hvpn⟩ := hr.unique he hse he₁ (hf ▸ hs₁)
  exact ⟨ho, hvpn⟩

/-- A slot changes.  Its new mapping is backed, and leads where it did or where no other
    slot leads. -/
theorem set (h : tlb.Coherent r) (hb : r.Backs pid m) (hv : m.valid = true)
    (halone : ∀ {j t}, tlb.slots[j]? = some t → t.mapping.valid = true →
      t.mapping.ppn = m.ppn → j = i) :
    Coherent r ⟨tlb.slots.set i ⟨m, some pid⟩⟩ := by
  have hget : ∀ {j t}, (tlb.slots.set i ⟨m, some pid⟩)[j]? = some t →
      (j = i ∧ t = ⟨m, some pid⟩) ∨ (j ≠ i ∧ tlb.slots[j]? = some t) := by
    intro j t ht
    rw [List.getElem?_set] at ht
    split at ht
    · next hij =>
      split at ht
      · exact .inl ⟨hij.symm, (Option.some.inj ht).symm⟩
      · cases ht
    · next hij => exact .inr ⟨Ne.symm hij, ht⟩
  refine ⟨?_, ?_, ?_⟩
  · intro t ht htv
    obtain ⟨j, hj⟩ := List.mem_iff_getElem?.1 ht
    rcases hget hj with ⟨-, rfl⟩ | ⟨-, hold⟩
    · exact ⟨pid, rfl, hb⟩
    · exact h.tagged (List.mem_of_getElem? hold) htv
  · intro t ht htv
    obtain ⟨j, hj⟩ := List.mem_iff_getElem?.1 ht
    rcases hget hj with ⟨-, rfl⟩ | ⟨-, hold⟩
    · cases hv.symm.trans htv
    · exact h.untagged (List.mem_of_getElem? hold) htv
  · intro j j' s t hs ht hsv htv heq
    rcases hget hs with ⟨rfl, rfl⟩ | ⟨hj, hs'⟩ <;> rcases hget ht with ⟨rfl, rfl⟩ | ⟨hj', ht'⟩
    · rfl
    · exact absurd (halone ht' htv heq.symm) hj'
    · exact absurd (halone hs' hsv heq) hj
    · exact h.apart hs' ht' hsv htv heq

/-- Slots may be emptied. -/
theorem takeWhere (h : tlb.Coherent r) (p : TlbSlot → Bool) : (tlb.takeWhere p).2.Coherent r := by
  have hvalid : ∀ {s : TlbSlot},
      (if (s.mapping.valid && p s) = true then s.emptied else s).mapping.valid = true →
        (if (s.mapping.valid && p s) = true then s.emptied else s) = s := by
    intro s hs
    split at hs
    · cases hs
    · next hgo => rw [if_neg hgo]
  refine ⟨?_, ?_, ?_⟩
  · intro t ht htv
    obtain ⟨s, hs, rfl⟩ := List.mem_map.1 ht
    simp only [hvalid htv] at htv ⊢
    exact h.tagged hs htv
  · intro t ht htv
    obtain ⟨s, hs, rfl⟩ := List.mem_map.1 ht
    by_cases hgo : (s.mapping.valid && p s) = true
    · simp only [hgo, if_true]
      rfl
    · simp only [hgo, Bool.false_eq_true, if_false] at htv ⊢
      exact h.untagged hs htv
  · intro j j' s t hs ht hsv htv heq
    simp only [Tlb.takeWhere, List.getElem?_map, Option.map_eq_some_iff] at hs ht
    obtain ⟨s₀, hs₀, rfl⟩ := hs
    obtain ⟨t₀, ht₀, rfl⟩ := ht
    have hs₁ := hvalid hsv
    have ht₁ := hvalid htv
    rw [hs₁] at hsv heq
    rw [ht₁] at htv heq
    exact h.apart hs₀ ht₀ hsv htv heq

/-- The `used` bits may be turned off. -/
theorem harvest (h : tlb.Coherent r) : tlb.harvest.2.Coherent r := by
  have hslot : ∀ s : TlbSlot, ∃ b : Bool, (if s.mapping.valid = true then s.unused else s) =
      ⟨{ s.mapping with used := b }, s.owner⟩ := by
    intro s
    split
    · exact ⟨false, rfl⟩
    · exact ⟨s.mapping.used, rfl⟩
  refine ⟨?_, ?_, ?_⟩
  · intro t ht htv
    obtain ⟨s, hs, rfl⟩ := List.mem_map.1 ht
    obtain ⟨b, hb⟩ := hslot s
    rw [hb] at htv ⊢
    obtain ⟨pid, ho, hback⟩ := h.tagged hs htv
    exact ⟨pid, ho, hback⟩
  · intro t ht htv
    obtain ⟨s, hs, rfl⟩ := List.mem_map.1 ht
    obtain ⟨b, hb⟩ := hslot s
    rw [hb] at htv ⊢
    have ho := h.untagged hs htv
    exact ho
  · intro j j' s t hs ht hsv htv heq
    simp only [Tlb.harvest, List.getElem?_map, Option.map_eq_some_iff] at hs ht
    obtain ⟨s₀, hs₀, rfl⟩ := hs
    obtain ⟨t₀, ht₀, rfl⟩ := ht
    obtain ⟨b, hb⟩ := hslot s₀
    obtain ⟨b', hb'⟩ := hslot t₀
    rw [hb] at hsv heq
    rw [hb'] at htv heq
    exact h.apart hs₀ ht₀ hsv htv heq

end Coherent

/-! ## Looking up and choosing slots -/

/-- What is taken out was in a valid slot. -/
theorem of_mem_takeWhere {p : TlbSlot → Bool} (hm : m ∈ (tlb.takeWhere p).1.map (·.2)) :
    ∃ slot ∈ tlb.slots, slot.mapping = m ∧ slot.mapping.valid = true ∧ p slot = true := by
  obtain ⟨⟨q, m'⟩, hmem, rfl⟩ := List.mem_map.1 hm
  obtain ⟨slot, hslot, hheld⟩ := List.mem_filterMap.1 hmem
  split at hheld
  · next hgo =>
    obtain ⟨hv, hp⟩ : slot.mapping.valid = true ∧ p slot = true := by simpa using hgo
    rw [TlbSlot.held, if_pos hv] at hheld
    obtain ⟨q', -, heq⟩ := Option.map_eq_some_iff.1 hheld
    cases heq
    exact ⟨slot, hslot, rfl, hv, hp⟩
  · cases hheld

theorem lookup_eq_some (h : tlb.lookup pid v = some i) :
    ∃ slot, tlb.slots[i]? = some slot ∧ slot.mapping.valid = true ∧ slot.mapping.vpn = v ∧
      slot.owner = some pid := by
  obtain ⟨hlt, hcovers, -⟩ := List.findIdx?_eq_some_iff_getElem.1 h
  simp only [TlbSlot.covers, Bool.and_eq_true, beq_iff_eq] at hcovers
  exact ⟨tlb.slots[i], List.getElem?_eq_getElem hlt, hcovers.1.1, hcovers.1.2, hcovers.2⟩

theorem lookup_ne_none (hs : slot ∈ tlb.slots) (hv : slot.mapping.valid = true)
    (hvpn : slot.mapping.vpn = v) (ho : slot.owner = some pid) : tlb.lookup pid v ≠ none := by
  intro hnone
  have hcovers := List.findIdx?_eq_none_iff.1 hnone slot hs
  simp [TlbSlot.covers, hv, hvpn, ho] at hcovers

theorem chooseSlot_lt (hsize : 0 < tlb.slots.length) :
    (tlb.chooseSlot pid v choices).1 < tlb.slots.length := by
  unfold chooseSlot
  split
  · next i hi =>
    obtain ⟨slot, hs, -⟩ := lookup_eq_some hi
    exact (List.getElem?_eq_some_iff.1 hs).1
  · split
    · next i hi => exact (List.findIdx?_eq_some_iff_getElem.1 hi).1
    · unfold Choices.pick
      split
      · exact hsize
      · exact Nat.mod_lt _ hsize

/-- The slot for a mapping is the only one that may lead to the frame of its page. -/
theorem Coherent.chooseSlot_alone (h : tlb.Coherent r) (hr : r.Coherent pins none)
    (hb : r.Backs pid m) (hj : tlb.slots[j]? = some slot) (hv : slot.mapping.valid = true)
    (hf : slot.mapping.ppn = m.ppn) : j = (tlb.chooseSlot pid m.vpn choices).1 := by
  obtain ⟨ho, hvpn⟩ := h.page_of_frame hr hb (List.mem_of_getElem? hj) hv hf
  cases hl : tlb.lookup pid m.vpn with
  | none => exact absurd hl (lookup_ne_none (List.mem_of_getElem? hj) hv hvpn ho)
  | some i =>
    obtain ⟨s, hs, hsv, hsvpn, hso⟩ := lookup_eq_some hl
    obtain ⟨q, hq, hsb⟩ := h.tagged (List.mem_of_getElem? hs) hsv
    obtain rfl : pid = q := Option.some.inj (hso.symm.trans hq)
    obtain ⟨e, he, hse, -⟩ := hb
    obtain ⟨e₁, he₁, hs₁, -⟩ := hsb
    rw [hsvpn, he] at he₁
    cases he₁
    have hppn : m.ppn = s.mapping.ppn := PageState.resident.inj (hse.symm.trans hs₁)
    have hji : j = i := h.apart hj hs hv hsv (hf.trans hppn)
    simp only [chooseSlot, hl]
    exact hji

end Tlb

end DemandPaging
