/-
  Reference bits are neither lost nor made up.

  The bits of a page lie in its entry and in the copy that the TLB has of it (`copyBit`).  Putting
  a mapping into the TLB, harvesting it and flushing it move bits from one to the other: the
  entry with the bits of its copy (`whole?`) stays what it was, for every page of every process
  and whatever the slots hold (`Synchronizes`).

  * `Gathered`: after a flush and after a harvest every bit is in the page tables;
  * `Installed`: which slot a mapping goes to, and what becomes of the others.
-/
import DemandPaging.Proofs.Agreement
import DemandPaging.Proofs.Settled
import DemandPaging.Proofs.Victim

namespace DemandPaging

/-! ## Copies of pages -/

namespace Tlb

variable {pins : Frame → Nat} {r : Residency} {tlb : Tlb} {pid : Pid} {v : Vpn} {f : Frame}
  {e : PageEntry} {b : Mapping → Bool} {choices : Choices}

/-- The copy of page `v` of process `pid` has the bit `b` on. -/
def copyBit (tlb : Tlb) (b : Mapping → Bool) (pid : Pid) (v : Vpn) : Bool :=
  tlb.slots.any fun slot => slot.covers pid v && b slot.mapping

/-- The copy of a page that is in a frame is the one that leads to the frame. -/
theorem Coherent.copyBit_eq (h : tlb.Coherent r) (hr : r.Coherent pins none)
    (he : r.page? pid v = some e) (hs : e.state = .resident f) :
    tlb.copyBit b pid v = bitIn b tlb.mappings f := by
  rw [copyBit, bitIn, mappings, List.any_map, Bool.eq_iff_iff, List.any_eq_true, List.any_eq_true]
  refine exists_congr fun slot => and_congr_right fun hslot => ?_
  simp only [TlbSlot.covers, Function.comp, Bool.and_eq_true, beq_iff_eq]
  refine and_congr_left fun _ => ?_
  constructor
  · rintro ⟨⟨hv, rfl⟩, ho⟩
    obtain ⟨q, hq, e₁, he₁, hs₁, -⟩ := h.tagged hslot hv
    obtain rfl : pid = q := Option.some.inj (ho.symm.trans hq)
    cases he.symm.trans he₁
    exact ⟨hv, PageState.resident.inj (hs₁.symm.trans hs)⟩
  · rintro ⟨hv, rfl⟩
    obtain ⟨q, hq, e₁, he₁, hs₁, -⟩ := h.tagged hslot hv
    obtain ⟨rfl, hvpn⟩ := hr.unique he hs he₁ hs₁
    exact ⟨⟨hv, hvpn⟩, hq⟩

/-- A page that is in no frame has no copy. -/
theorem Coherent.copyBit_eq_false (h : tlb.Coherent r)
    (hout : ∀ e f, r.page? pid v = some e → e.state ≠ .resident f) :
    tlb.copyBit b pid v = false := by
  rw [copyBit, List.any_eq_false]
  intro slot hslot hbit
  simp only [TlbSlot.covers, Bool.and_eq_true, beq_iff_eq] at hbit
  obtain ⟨⟨⟨hv, rfl⟩, ho⟩, -⟩ := hbit
  obtain ⟨q, hq, e, he, hs, -⟩ := h.tagged hslot hv
  obtain rfl : pid = q := Option.some.inj (ho.symm.trans hq)
  exact hout e _ he hs

/-- How the slot for a mapping of page `v` of process `pid` is chosen, and the choices that are
    left: the slot that has the page, else an invalid one, else one at will. -/
inductive Chosen (tlb : Tlb) (pid : Pid) (v : Vpn) (choices : Choices) : Nat → Choices → Prop where
  | own {i : Nat} {slot : TlbSlot} (hslot : tlb.slots[i]? = some slot)
    (hcovers : slot.covers pid v = true) : Chosen tlb pid v choices i choices
  | invalid {i : Nat} {slot : TlbSlot} (hnone : ∀ s ∈ tlb.slots, s.covers pid v = false)
    (hslot : tlb.slots[i]? = some slot) (hinvalid : slot.mapping.valid = false) :
    Chosen tlb pid v choices i choices
  | atWill (hnone : ∀ s ∈ tlb.slots, s.covers pid v = false)
    (hvalid : ∀ s ∈ tlb.slots, s.mapping.valid = true) :
    Chosen tlb pid v choices (choices.pick tlb.slots.length).1 (choices.pick tlb.slots.length).2

theorem chosen_chooseSlot :
    tlb.Chosen pid v choices (tlb.chooseSlot pid v choices).1 (tlb.chooseSlot pid v choices).2 := by
  unfold chooseSlot
  split
  · next i hi =>
    obtain ⟨hlt, hcovers, -⟩ := List.findIdx?_eq_some_iff_getElem.1 hi
    exact .own (List.getElem?_eq_getElem hlt) hcovers
  · next hnone =>
    have hnone := List.findIdx?_eq_none_iff.1 hnone
    split
    · next i hi =>
      obtain ⟨hlt, hinvalid, -⟩ := List.findIdx?_eq_some_iff_getElem.1 hi
      exact .invalid hnone (List.getElem?_eq_getElem hlt) (by simpa using hinvalid)
    · next hvalid =>
      exact .atWill hnone fun s hs => by simpa using List.findIdx?_eq_none_iff.1 hvalid s hs

/-- A page without a copy gets a slot at will when all slots are taken. -/
theorem Chosen.of_full {i : Nat} {later : Choices} (h : tlb.Chosen pid v choices i later)
    (hfull : ∀ s ∈ tlb.slots, s.covers pid v = false ∧ s.mapping.valid = true) :
    i = (choices.pick tlb.slots.length).1 := by
  cases h with
  | own hslot hcovers => cases (hfull _ (List.mem_of_getElem? hslot)).1.symm.trans hcovers
  | invalid _ hslot hinvalid => cases (hfull _ (List.mem_of_getElem? hslot)).2.symm.trans hinvalid
  | atWill => rfl

end Tlb

namespace Residency

variable {r : Residency} {copies : List Mapping} {pid : Pid} {v : Vpn} {e : PageEntry}

theorem listed?_absorb : (r.absorb copies).listed? pid v = (r.listed? pid v).map (·.absorb copies) := by
  unfold listed? absorb
  rw [process?_map]
  cases r.process? pid with
  | none => rfl
  | some p => exact PageTable.find?_map

/-- A page with content belongs to a registered process. -/
theorem Formed.page?_of_resident {f : Frame} (h : r.Formed) (he : r.listed? pid v = some e)
    (hs : e.state = .resident f) : r.page? pid v = some e := by
  obtain ⟨p, hp, hentry⟩ := Option.bind_eq_some_iff.1 he
  exact (h.page?_or_absent hp hentry).resolve_right (by simp [hs])

/-- An entry absorbs what the bits of its copies are. -/
theorem Coherent.absorb_entry {pins : Frame → Nat} {more : List Mapping}
    (h : r.Coherent pins none) (he : r.listed? pid v = some e)
    (hbits : ∀ f, e.state = .resident f → r.page? pid v = some e →
      (e.used || usedIn copies f) = (e.used || usedIn more f) ∧
        (e.dirty || dirtyIn copies f) = (e.dirty || dirtyIn more f)) :
    e.absorb copies = e.absorb more := by
  cases hs : e.state with
  | resident f =>
    obtain ⟨hused, hdirty⟩ := hbits f hs (h.toFormed.page?_of_resident he hs)
    rw [PageEntry.absorb_resident hs, PageEntry.absorb_resident hs, hused, hdirty]
  | absent | swapped =>
    rw [PageEntry.absorb_of_not_resident (by simp [hs]),
      PageEntry.absorb_of_not_resident (by simp [hs])]

end Residency

namespace Kernel

variable {σ : Type} {V : Violation → Prop} {pins : Frame → Nat} {k k' : Kernel σ} {pid : Pid}
  {v : Vpn} {e : PageEntry} {f : Frame} {tlb : Tlb} {choices : Choices} {copies : List Mapping}
  {i : Nat}

/-! ## Pages with their copies -/

/-- The entry of a page with the bits of the copy that the TLB has of it. -/
def whole? (k : Kernel σ) (pid : Pid) (v : Vpn) : Option PageEntry :=
  (k.residency.listed? pid v).map fun e =>
    { e with
      used := e.used || k.tlb.copyBit (·.used) pid v
      dirty := e.dirty || k.tlb.copyBit (·.dirty) pid v }

theorem Sound.whole?_eq (h : k.Sound pins none) :
    k.whole? pid v = (k.residency.listed? pid v).map (·.absorb k.tlb.mappings) := by
  rw [whole?]
  refine Option.map_congr fun e he => ?_
  by_cases hin : ∃ f, e.state = .resident f
  · obtain ⟨f, hs⟩ := hin
    have hpage := h.frames.toFormed.page?_of_resident he hs
    rw [PageEntry.absorb_resident hs, h.tlb.copyBit_eq h.frames hpage hs,
      h.tlb.copyBit_eq h.frames hpage hs, usedIn_eq, dirtyIn_eq]
  · have hout : ∀ e' f, k.residency.page? pid v = some e' → e'.state ≠ .resident f := by
      intro e' f he' hs
      cases he.symm.trans (Residency.listed?_of_page? he')
      exact hin ⟨f, hs⟩
    rw [PageEntry.absorb_of_not_resident fun f hs => hin ⟨f, hs⟩, h.tlb.copyBit_eq_false hout,
      h.tlb.copyBit_eq_false hout, Bool.or_false, Bool.or_false]

/-- What moving bits between page tables and TLB leaves as it is. -/
structure Synchronizes (k k' : Kernel σ) : Prop where
  /-- Every page is what it was, its entry and its copy taken together: where it is, its flags, and
      whether it is used and whether it is dirty. -/
  whole : ∀ pid v, k'.whole? pid v = k.whole? pid v
  /-- Every frame has the owner, the page and the pins that it had. -/
  holder : ∀ f, (k'.residency.frames.info? f).map FrameInfo.holder =
    (k.residency.frames.info? f).map FrameInfo.holder
  memory : k'.memory = k.memory
  swap : k'.swap = k.swap
  /-- The mapping recorded for a frame is that of the entry of its page. -/
  recorded : ∀ {f i pid}, k'.residency.frames.info? f = some i → i.owner = some pid →
    (k'.residency.listed? pid i.mapping.vpn).map (·.mapping) = some i.mapping

/-- Copies that are written back as they leave the TLB leave every page what it was. -/
theorem Sound.synchronizes (h : k.Sound pins none)
    (h' : Sound pins none { k with tlb, choices, residency := k.residency.absorb copies })
    (hbits : ∀ {pid v e f}, k.residency.page? pid v = some e → e.state = .resident f →
      (e.used || usedIn (copies ++ tlb.mappings) f) = (e.used || usedIn k.tlb.mappings f) ∧
        (e.dirty || dirtyIn (copies ++ tlb.mappings) f) = (e.dirty || dirtyIn k.tlb.mappings f)) :
    k.Synchronizes { k with tlb, choices, residency := k.residency.absorb copies } where
  whole := by
    intro pid v
    rw [h'.whole?_eq, h.whole?_eq, Residency.listed?_absorb, Option.map_map]
    refine Option.map_congr fun e he => ?_
    rw [Function.comp, PageEntry.absorb_absorb]
    exact h.frames.absorb_entry he fun f hs hpage => hbits hpage hs
  holder := by
    intro f
    change ((k.residency.absorb copies).frames.info? f).map _ = _
    rw [Residency.absorb, Residency.info?_map, Option.map_map]
    exact Option.map_congr fun i _ => FrameInfo.holder_absorb
  memory := rfl
  swap := rfl
  recorded := by
    intro f i pid hi ho
    obtain ⟨e, he, -, hheld⟩ := h'.frames.owned hi (by simp) ho
    rw [Residency.listed?_of_page? he, Option.map_some, hheld]
    rfl

/-! ## What becomes of the slots -/

/-- Every bit is in the page tables. -/
def Gathered (k k' : Kernel σ) : Prop :=
  ∀ pid v, k'.residency.listed? pid v = k.whole? pid v

theorem Sound.gathered (h : k.Sound pins none)
    (hused : ∀ f, usedIn copies f = usedIn k.tlb.mappings f)
    (hdirty : ∀ f, dirtyIn copies f = dirtyIn k.tlb.mappings f) :
    k.Gathered { k with tlb, choices, residency := k.residency.absorb copies } := by
  intro pid v
  rw [h.whole?_eq, Residency.listed?_absorb]
  refine Option.map_congr fun e he => h.frames.absorb_entry he fun f _ _ => ?_
  rw [hused, hdirty]
  exact ⟨rfl, rfl⟩

/-- The entry of page `e` went to slot `i` of the TLB, for process `pid`. -/
structure Installed (k : Kernel σ) (pid : Pid) (e : PageEntry) (i : Nat) (k' : Kernel σ) :
    Prop where
  chosen : k.tlb.Chosen pid e.vpn k.choices i k'.choices
  lt : i < k.tlb.slots.length
  /-- The slot holds the mapping of the page; the others hold what they held. -/
  slots : k'.tlb.slots = k.tlb.slots.set i ⟨e.mapping, some pid⟩
  /-- No other slot has the page. -/
  alone : ∀ {j : Nat} {slot}, k'.tlb.slots[j]? = some slot → slot.covers pid e.vpn = true → j = i

theorem Sound.installed_spec (h : k.Sound pins none) (he : k.residency.page? pid v = some e)
    (hs : e.state = .resident f) (hsize : 0 < k.tlb.slots.length) :
    Ends V (install (σ := σ) pid e.mapping).run k fun r k' =>
      r = .ok () ∧ k.Synchronizes k' ∧ ∃ i, k.Installed pid e i k' := by
  have hready : Ready pins pid v e.mapping k k := ⟨⟨h, .refl⟩, e, f, he, hs, rfl⟩
  obtain ⟨hvalid, hb, hvpn⟩ := hready.mapping
  have hlt : (k.tlb.chooseSlot pid e.mapping.vpn k.choices).1 < k.tlb.slots.length :=
    Tlb.chooseSlot_lt hsize
  have hslot := List.getElem?_eq_getElem hlt
  refine (ends_install h hvalid hslot).2 ⟨rfl, ?_, (k.tlb.chooseSlot pid e.mapping.vpn k.choices).1, ?_⟩
  · refine h.synchronizes (h.installed hvalid hb hslot) fun he₁ hs₁ => ⟨?_, ?_⟩
    · exact h.bit_installed (c := (·.used)) (fun _ => rfl) hslot he hs he₁ hs₁
    · exact h.bit_installed (c := (·.dirty)) (fun _ => rfl) hslot he hs he₁ hs₁
  · refine ⟨Tlb.chosen_chooseSlot, hlt, rfl, fun hj hcovers => ?_⟩
    simp only [TlbSlot.covers, Bool.and_eq_true, beq_iff_eq] at hcovers
    exact (TlbAgrees.of_sound (h.installed hvalid hb hslot)).once hj (List.getElem?_set_self hlt)
      hcovers.1.1 hvalid hcovers.2 hcovers.1.2

/-! ## Reachable kernels -/

section Reachable

variable [BackingStore σ]

/-- Flushing and harvesting the TLB, and putting the mapping of any page that is in a frame into
    it, whatever the next random slots are, leave every page what it was, its entry and its copy
    taken together.  After a flush no slot is valid, and after a harvest none is used; every bit is
    in the page tables then.  After the third the page has one slot, the one it had or an invalid
    one if there was one. -/
theorem Reachable.bits_conserved (h : k.Reachable) :
    (Ends (fun _ => False) (flush (σ := σ)).run k fun r k' => r = .ok () ∧ k.Synchronizes k' ∧
      k.Gathered k' ∧ ∀ slot ∈ k'.tlb.slots, slot.mapping.valid = false) ∧
    (Ends (fun _ => False) (harvest (σ := σ)).run k fun r k' => r = .ok () ∧ k.Synchronizes k' ∧
      k.Gathered k' ∧ (∀ slot ∈ k'.tlb.slots, slot.mapping.valid = true → slot.mapping.used = false) ∧
      k'.tlb.slots.map TlbSlot.unused = k.tlb.slots.map TlbSlot.unused) ∧
    ∀ {pid p v e f} (choices : Choices), k.residency.process? pid = some p →
      p.table.find? v = some e → e.state = .resident f →
      Ends (fun _ => False) (install (σ := σ) pid e.mapping).run { k with choices } fun r k' =>
        r = .ok () ∧ Synchronizes { k with choices } k' ∧
          ∃ i, Installed { k with choices } pid e i k' := by
  obtain ⟨pins, hsound, hsize⟩ := h.sound
  refine ⟨?_, ?_, ?_⟩
  · refine (ends_flush hsound).2 ⟨rfl, ?_, ?_, fun slot hslot => Tlb.valid_drain hslot⟩
    · refine hsound.synchronizes hsound.flushed fun _ _ => ?_
      rw [usedIn_eq, dirtyIn_eq, Tlb.drain, hsound.tlb.bit_takeWhere, hsound.tlb.bit_takeWhere]
      exact ⟨rfl, rfl⟩
    · exact hsound.gathered (fun f => hsound.tlb.bit_drained) fun f => hsound.tlb.bit_drained
  · refine (ends_harvest hsound).2 ⟨rfl, ?_, ?_, ?_, ?_⟩
    · refine hsound.synchronizes hsound.harvested fun _ _ => ?_
      rw [Tlb.used_harvest, Tlb.dirty_harvest]
      exact ⟨rfl, rfl⟩
    · exact hsound.gathered (fun f => Tlb.bit_harvested) fun f => Tlb.bit_harvested
    · exact fun slot hslot hv => Tlb.used_of_harvest hslot hv
    · exact Tlb.map_unused_harvest
  · intro pid p v e f choices hp he hs
    have hpage := (hsound.live_of_resident hp he hs).1
    exact hsound.redealt.installed_spec hpage hs hsize

/-! ### A full TLB -/

/-- What there is to see before the second page gets a slot: the TLB, the entry of this page, and
    whether the entry of the first page is dirty. -/
def seenWhenFull (k : Kernel MemoryStore) : Tlb × Option PageEntry × Option Bool :=
  (k.tlb, k.residency.listed? 1 1, (k.residency.listed? 1 0).map (·.dirty))

/-- The first page and the third one have the two slots.  The first page was written to, which only
    its slot tells. -/
theorem exists_full : ∃ k : Kernel MemoryStore, k.Reachable ∧ seenWhenFull k =
    (⟨[⟨⟨0, 0, true, false, true, true⟩, some 1⟩, ⟨⟨2, 2, true, false, true, false⟩, some 1⟩]⟩,
      some ⟨1, .resident 1, false, true, false, false⟩, some false) := by
  have hrun : (boot 4 { physPages := 3, tlbSize := 2, stackPages := 3 } ({} : MemoryStore) [] [1] >>=
      fun k => (fun r => seenWhenFull r.2) <$> (Kernel.run [.spawn [], .process 1 (.storeByte 0 1),
        .process 1 (.loadByte 4), .process 1 (.loadByte 8)]).run k).toOption =
      some (⟨[⟨⟨0, 0, true, false, true, true⟩, some 1⟩, ⟨⟨2, 2, true, false, true, false⟩, some 1⟩]⟩,
        some ⟨1, .resident 1, false, true, false, false⟩, some false) := by
    decide +kernel
  exact Reachable.exists_of_run hrun

/-- Both slots are taken, and the first is picked for a page without a copy: the entry of the page
    that gives the slot up is dirty from then on. -/
theorem Reachable.bits_conserved_of_full : ∃ (k k' : Kernel MemoryStore) (e : PageEntry),
    k.tlb = ⟨[⟨⟨0, 0, true, false, true, true⟩, some 1⟩, ⟨⟨2, 2, true, false, true, false⟩, some 1⟩]⟩ ∧
      k.residency.listed? 1 1 = some e ∧ e.state = .resident 1 ∧
      (k.residency.listed? 1 0).map (·.dirty) = some false ∧
      (install 1 e.mapping).run.run { k with choices := ⟨[0], 0⟩ } = .ok (.ok (), k') ∧
      k'.tlb = ⟨[⟨⟨1, 1, true, false, true, false⟩, some 1⟩, ⟨⟨2, 2, true, false, true, false⟩, some 1⟩]⟩ ∧
      (k'.residency.listed? 1 0).map (·.dirty) = some true := by
  obtain ⟨k, hk, hseen⟩ := exists_full
  simp only [seenWhenFull, Prod.mk.injEq] at hseen
  obtain ⟨htlb, hentry, hclean⟩ := hseen
  obtain ⟨p, hp, he⟩ := Option.bind_eq_some_iff.1 hentry
  obtain ⟨-, -, hinstall⟩ := Reachable.bits_conserved hk
  obtain ⟨_, k', hdone, rfl, hsync, i, hin⟩ := ends_iff_eq_ok.1 (hinstall ⟨[0], 0⟩ hp he rfl)
  have hfull : ∀ s ∈ k.tlb.slots, s.covers 1 1 = false ∧ s.mapping.valid = true := by
    rw [htlb]
    decide
  obtain rfl : i = 0 := (hin.chosen.of_full hfull).trans (Nat.zero_mod _)
  have hslots := hin.slots
  simp only [htlb, List.set_cons_zero] at hslots
  have htlb' : k'.tlb = ⟨[⟨⟨1, 1, true, false, true, false⟩, some 1⟩,
      ⟨⟨2, 2, true, false, true, false⟩, some 1⟩]⟩ := congrArg Tlb.mk hslots
  refine ⟨k, k', _, htlb, hentry, rfl, hclean, hdone, htlb', ?_⟩
  obtain ⟨e, he, hdirty⟩ := Option.map_eq_some_iff.1 hclean
  have hcopy : k.tlb.copyBit (·.dirty) 1 0 = true := by
    rw [htlb]
    rfl
  have hnone : k'.tlb.copyBit (·.dirty) 1 0 = false := by
    rw [htlb']
    rfl
  -- the bit is now in the entry alone
  have hwhole : k'.whole? 1 0 = k.whole? 1 0 := hsync.whole 1 0
  have hbit := congrArg (Option.map (·.dirty)) hwhole
  simp only [whole?, Option.map_map, Function.comp_def, hcopy, hnone, Bool.or_false, Bool.or_true, he,
    Option.map_some] at hbit
  exact hbit

end Reachable

end Kernel

end DemandPaging
