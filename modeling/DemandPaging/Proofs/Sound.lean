/-
  The invariant of the kernel.

  `Kernel.Sound` says that frames and pages agree, that the TLB and the swap slots agree with
  the page tables, and that memory and the address spaces have the sizes and flags they
  were made with.

  * `Keeps` is what no fault, access or copy changes about the kernel;
  * `install`, `flush`, `harvest` and `shootDown` write copies back (`absorb`) and keep the
    kernel sound.
-/
import DemandPaging.Proofs.Image
import DemandPaging.Proofs.Memory
import DemandPaging.Proofs.TlbCoherence

namespace DemandPaging

/-- A page that is in a slot owns the slot. -/
def SlotTable.Coherent (r : Residency) (slots : SlotTable) : Prop :=
  ∀ s pid v, (r.page? pid v).map (·.state) = some (.swapped s) → slots.owner s = some ⟨pid, v⟩

theorem SlotTable.Coherent.mono {r r' : Residency} {slots : SlotTable} (h : slots.Coherent r)
    (hpage : ∀ pid v, (r'.page? pid v).map (·.state) = (r.page? pid v).map (·.state)) :
    slots.Coherent r' :=
  fun s pid v hstate => h s pid v ((hpage pid v).symm.trans hstate)

namespace Kernel

variable {σ : Type} {pins : Frame → Nat} {loose : Option Frame} {k k' : Kernel σ} {pid : Pid}
  {m : Mapping} {copies : List Mapping} {tlb : Tlb} {f : Frame} {i : Nat} {slot : TlbSlot}
  {vaddr : Nat} {write : Bool}

/-- The sections before any page was loaded from them. -/
def images (k : Kernel σ) : List Section := k.sections.map Section.unloaded

/-- The sections of an executable, before any page was loaded from them. -/
theorem images_of_executable {sections : List SectionId} {exe : Executable}
    (h : k.executable sections = .ok exe) : sections.mapM (k.images[·]?) = some exe.unloaded := by
  unfold executable at h
  split at h
  · next hids =>
    cases h
    exact mapM_images hids
  · cases h

/-- All parts of the kernel agree, but for the frame `loose`.  As a number of 32 bits the page
    size is itself or 0. -/
structure Sound (pins : Frame → Nat) (loose : Option Frame) (k : Kernel σ) : Prop where
  frames : k.residency.Coherent pins loose
  tlb : k.tlb.Coherent k.residency
  slots : k.swap.slots.Coherent k.residency
  memory : k.memory.Formed
  numFrames : k.residency.frames.size = k.memory.numFrames
  swapSize : k.swap.pageSize = k.memory.pageSize
  physPages : k.memory.numFrames = k.config.physPages
  divisible : k.memory.pageSize < limit32 ∨ k.memory.pageSize % limit32 = 0
  laid : ∀ {pid o}, k.residency.outline? pid = some o →
    o.Laid k.images k.memory.pageSize k.config.stackPages

theorem two_pow_lt_limit32 {n : Nat} (hn : n ≤ 31) : 2 ^ n < limit32 :=
  Nat.lt_of_le_of_lt (Nat.pow_le_pow_right (by decide) hn) (by decide)

/-- A power of two is divisible. -/
theorem divisible_two_pow {n : Nat} : 2 ^ n < limit32 ∨ 2 ^ n % limit32 = 0 := by
  rcases Nat.lt_or_ge n 32 with hn | hn
  · exact .inl (two_pow_lt_limit32 (Nat.le_of_lt_succ hn))
  · exact .inr (Nat.mod_eq_zero_of_dvd (Nat.pow_dvd_pow 2 hn))

/-- Addresses are divided by the page size itself, or not at all. -/
theorem Sound.divisor_eq (h : k.Sound pins loose) : divisor k.pageSize =
    if k.memory.pageSize < limit32 then .ok k.memory.pageSize else .error .divisionByZero := by
  have hpos := h.memory.pageSize_pos
  split
  · next hlt => exact DemandPaging.divisor_eq hpos hlt
  · next hge => exact if_pos (h.divisible.resolve_left hge)

theorem Sound.divisor_eq_ok {size : Nat} (h : k.Sound pins loose)
    (hsize : divisor k.pageSize = .ok size) :
    size = k.memory.pageSize ∧ k.memory.pageSize < limit32 := by
  rw [h.divisor_eq] at hsize
  split at hsize
  · next hlt => exact ⟨(Except.ok.inj hsize).symm, hlt⟩
  · cases hsize

theorem Sound.ends_divisor {V : Violation → Prop} (h : k.Sound pins loose)
    (hV : k.memory.pageSize < limit32 ∨ V .divisionByZero) {Q : Nat → Prop}
    (hQ : k.memory.pageSize < limit32 → Q k.memory.pageSize) :
    Checked.Ends V (divisor k.pageSize) Q := by
  rw [h.divisor_eq]
  split
  · next hlt => exact hQ hlt
  · next hge => exact hV.resolve_left hge

/-- A process is registered until it exits. -/
theorem Sound.registered_eq {pid : Pid} {p : Process} (h : k.Sound pins loose)
    (hp : k.residency.process? pid = some p) : p.registered = !p.exited :=
  h.frames.live (Residency.outline?_of_process hp)

theorem Sound.live_of_registered {pid : Pid} {p : Process} (h : k.Sound pins loose)
    (hp : k.residency.process? pid = some p) (hreg : p.registered = true) : p.exited = false := by
  have hlive := h.registered_eq hp
  rw [hreg] at hlive
  simpa using hlive.symm

/-- The slot of a page that was swapped out has an owner. -/
theorem Sound.slot_owned {pid : Pid} {v : Vpn} {e : PageEntry} {s : SlotIndex}
    (h : k.Sound pins loose) (he : k.residency.page? pid v = some e) (hs : e.state = .swapped s) :
    ∃ o, k.swap.slots.owner s = some o :=
  ⟨_, h.slots s pid v (by rw [he, Option.map_some, hs])⟩

/-- What only the making and ending of processes changes. -/
structure Keeps (k k' : Kernel σ) : Prop where
  config : k'.config = k.config
  images : k'.images = k.images
  pageSize : k'.memory.pageSize = k.memory.pageSize
  tlbSize : k'.tlb.slots.length = k.tlb.slots.length
  outline : ∀ pid, k'.residency.outline? pid = k.residency.outline? pid

theorem Keeps.refl : k.Keeps k := ⟨rfl, rfl, rfl, rfl, fun _ => rfl⟩

theorem Keeps.trans {k'' : Kernel σ} (h : k.Keeps k') (h' : k'.Keeps k'') : k.Keeps k'' :=
  ⟨h'.config.trans h.config, h'.images.trans h.images, h'.pageSize.trans h.pageSize,
    h'.tlbSize.trans h.tlbSize, fun pid => (h'.outline pid).trans (h.outline pid)⟩

theorem Keeps.symm (h : k.Keeps k') : k'.Keeps k :=
  ⟨h.config.symm, h.images.symm, h.pageSize.symm, h.tlbSize.symm, fun pid => (h.outline pid).symm⟩

/-- A page keeps its flag. -/
theorem Keeps.readOnly {pid : Pid} {v : Vpn} {e e' : PageEntry} (hkeeps : k.Keeps k')
    (he : k.residency.page? pid v = some e) (he' : k'.residency.page? pid v = some e') :
    e'.readOnly = e.readOnly := by
  have hflag := Residency.flag_eq he'
  rw [hkeeps.outline] at hflag
  exact Option.some.inj (hflag.symm.trans (Residency.flag_eq he))

/-- Processes with the same outlines have the same pages. -/
theorem Keeps.exists_page {pid : Pid} {v : Vpn} {e : PageEntry} (hkeeps : k.Keeps k')
    (he : k.residency.page? pid v = some e) : ∃ e', k'.residency.page? pid v = some e' := by
  obtain ⟨p, hp, hreg, hentry⟩ := Residency.page?_eq_some_iff.1 he
  obtain ⟨p', hp', hsame⟩ := Option.map_eq_some_iff.1
    ((hkeeps.outline pid).trans (congrArg (Option.map _) hp))
  have hlen : p'.table.entries.toList.length = p.table.entries.toList.length := by
    have hflags := congrArg (·.readOnly.length) hsame
    simpa only [Process.outline, List.length_map] using hflags
  have hlt := hlen.symm ▸ PageTable.lt_length hentry
  refine ⟨p'.table.entries.toList[v], Residency.page?_eq_some_iff.2 ⟨p', hp', ?_, ?_⟩⟩
  · exact (congrArg (·.registered) hsame).trans hreg
  · rw [PageTable.find?_eq, List.getElem?_eq_getElem hlt]

theorem Keeps.page?_eq_none {pid : Pid} {v : Vpn} (hkeeps : k.Keeps k')
    (hnone : k.residency.page? pid v = none) : k'.residency.page? pid v = none := by
  refine Option.eq_none_iff_forall_ne_some.2 fun e' he' => ?_
  obtain ⟨e, he⟩ := hkeeps.symm.exists_page he'
  cases hnone.symm.trans he

/-- The address spaces stay laid out as long as nobody makes new ones. -/
theorem Keeps.laid (hk : k.Keeps k') (h : k.Sound pins loose) {pid : Pid} {o : Process.Outline}
    (ho : k'.residency.outline? pid = some o) :
    o.Laid k'.images k'.memory.pageSize k'.config.stackPages := by
  rw [hk.config, hk.images, hk.pageSize]
  exact h.laid (hk.outline pid ▸ ho)

/-- Pins are as the ledger counts them. -/
theorem Sound.pinCount_eq (h : k.Sound pins none) :
    (k.residency.frames.info? f).map (·.pinCount) =
      if f < k.memory.numFrames then some (pins f) else none := by
  cases hi : k.residency.frames.info? f with
  | none =>
    rw [if_neg fun hf => ?_]
    · rfl
    · obtain ⟨i, hi'⟩ := FrameTable.lt_size_iff.1 (h.numFrames.symm ▸ hf)
      cases hi.symm.trans hi'
  | some i =>
    rw [if_pos (h.numFrames ▸ FrameTable.lt_size hi), Option.map_some, h.frames.pinned hi (by simp)]

/-! ## Parts of the state -/

section Parts

variable {α : Type} {V : Violation → Prop} {Q : Except PagingError Unit → Kernel σ → Prop}
  {R : Except PagingError α → Kernel σ → Prop}

theorem ends_onResidency {c : Residency → Checked Residency} {r : Residency}
    (hc : c k.residency = .ok r) :
    Ends V (onResidency (σ := σ) c).run k Q ↔ Q (.ok ()) { k with residency := r } := by
  unfold onResidency
  simp only [ends_bind, ends_get, ends_set, ends_lift, hc, Checked.ends_ok]

theorem ends_change {c : Residency → Residency} :
    Ends V (onResidency (σ := σ) fun r => .ok (c r)).run k Q ↔
      Q (.ok ()) { k with residency := c k.residency } :=
  ends_onResidency rfl

theorem ends_onFrames {c : FrameTable → Checked FrameTable} {table : FrameTable}
    (hc : c k.residency.frames = .ok table) :
    Ends V (onFrames (σ := σ) c).run k Q ↔
      Q (.ok ()) { k with residency := { k.residency with frames := table } } :=
  ends_onResidency (by simp only [hc]; rfl)

theorem ends_reading {op : PhysicalMemory → Attempt MemoryError α} {r : Except MemoryError α}
    (hop : (op k.memory).run = .ok r) :
    Ends V (reading (σ := σ) op).run k R ↔ R (r.mapError .memory) k := by
  unfold reading
  simp only [ends_bind, ends_get, ends_ofAttempt, hop, Checked.ends_ok]

theorem ends_writing {op : PhysicalMemory → Attempt MemoryError PhysicalMemory}
    {memory : PhysicalMemory} (hop : (op k.memory).run = .ok (.ok memory)) :
    Ends V (writing (σ := σ) op).run k Q ↔ Q (.ok ()) { k with memory } := by
  unfold writing
  rw [ends_bind, ends_reading hop]
  exact ends_modify

theorem ends_writing_of_error {op : PhysicalMemory → Attempt MemoryError PhysicalMemory}
    {error : MemoryError} (hop : (op k.memory).run = .ok (.error error)) :
    Ends V (writing (σ := σ) op).run k Q ↔ Q (.error (.memory error)) k := by
  unfold writing
  rw [ends_bind, ends_reading hop]
  rfl

theorem ends_onSwap {act : Action (SwapSpace σ) StoreError α} :
    Ends V (onSwap act).run k R ↔
      Ends V act.run k.swap fun r swap => R (r.mapError .swap) { k with swap } :=
  ends_within

end Parts

/-- A part of the kernel may change its pages and frames as long as the rest still agrees. -/
theorem Sound.of_residency {pins' : Frame → Nat} {loose' : Option Frame} {r : Residency}
    (h : k.Sound pins loose) (hr : r.Coherent pins' loose') (htlb : k.tlb.Coherent r)
    (hslots : ∀ pid v, (r.page? pid v).map (·.state) = (k.residency.page? pid v).map (·.state))
    (hsize : r.frames.size = k.residency.frames.size)
    (houtline : ∀ pid, r.outline? pid = k.residency.outline? pid) :
    Sound pins' loose' { k with residency := r } where
  frames := hr
  tlb := htlb
  slots := h.slots.mono hslots
  memory := h.memory
  numFrames := hsize.trans h.numFrames
  swapSize := h.swapSize
  physPages := h.physPages
  divisible := h.divisible
  laid := fun ho => h.laid (houtline _ ▸ ho)

/-- The bytes in memory do not matter, as long as there are as many. -/
theorem Sound.of_memory {memory : PhysicalMemory} (h : k.Sound pins loose) (hmem : memory.Formed)
    (hsize : memory.pageSize = k.memory.pageSize) (hframes : memory.numFrames = k.memory.numFrames) :
    Sound pins loose { k with memory } where
  frames := h.frames
  tlb := h.tlb
  slots := h.slots
  memory := hmem
  numFrames := h.numFrames.trans hframes.symm
  swapSize := h.swapSize.trans hsize.symm
  physPages := hframes.trans h.physPages
  divisible := hsize.symm ▸ h.divisible
  laid := fun ho => hsize.symm ▸ h.laid ho

/-- The slots that are picked at will do not matter. -/
theorem Sound.redealt {choices : Choices} (h : k.Sound pins loose) :
    Sound pins loose { k with choices } :=
  ⟨h.frames, h.tlb, h.slots, h.memory, h.numFrames, h.swapSize, h.physPages, h.divisible, h.laid⟩

/-! ## Writing copies back -/

theorem Sound.absorb (h : k.Sound pins none) (hb : k.residency.BacksAll copies)
    (htlb : tlb.Coherent k.residency) {choices : Choices} :
    Sound pins none
      { k with tlb, choices, residency := k.residency.absorb copies } where
  frames := h.frames.absorb hb
  tlb := htlb.absorb
  slots := h.slots.mono fun _ _ => Residency.states_absorb
  memory := h.memory
  numFrames := Residency.size_map.trans h.numFrames
  swapSize := h.swapSize
  physPages := h.physPages
  divisible := h.divisible
  laid := fun ho => h.laid ((Residency.outline?_map fun _ => PageEntry.readOnly_absorb).symm.trans ho)

theorem Keeps.absorb {choices : Choices} (hsize : tlb.slots.length = k.tlb.slots.length) :
    k.Keeps { k with tlb, choices, residency := k.residency.absorb copies } :=
  ⟨rfl, rfl, rfl, hsize, fun _ => Residency.outline?_map fun _ => PageEntry.readOnly_absorb⟩

/-- The copies that a slot or more give up are backed. -/
theorem Sound.backsAll (h : k.Sound pins none) (hsub : ∀ m ∈ copies, m ∈ k.tlb.mappings) :
    k.residency.BacksAll copies :=
  fun m hm hv => h.tlb.backsAll m (hsub m hm) hv

theorem mem_takeWhere {p : TlbSlot → Bool} (hm : m ∈ (k.tlb.takeWhere p).1.map (·.2)) :
    m ∈ k.tlb.mappings := by
  obtain ⟨slot, hslot, rfl, -⟩ := Tlb.of_mem_takeWhere hm
  exact List.mem_map.2 ⟨slot, hslot, rfl⟩

section Copies

variable {V : Violation → Prop} {Q : Except PagingError Unit → Kernel σ → Prop}

theorem ends_reconcileAll (h : k.residency.Coherent pins none) (hb : k.residency.BacksAll copies) :
    Ends V (onResidency (σ := σ) (·.reconcileAll copies)).run k Q ↔
      Q (.ok ()) { k with residency := k.residency.absorb copies } := by
  unfold onResidency
  simp only [ends_bind, ends_get, ends_set, ends_lift, h.reconcileAll_eq hb, Checked.ends_ok]

/-- The copies in the TLB are written back and leave it. -/
theorem ends_flush (h : k.Sound pins none) :
    Ends V (flush (σ := σ)).run k Q ↔ Q (.ok ()) { k with
      tlb := k.tlb.drain.2
      residency := k.residency.absorb (k.tlb.drain.1.map (·.2)) } := by
  have hb : k.residency.BacksAll (k.tlb.drain.1.map (·.2)) :=
    h.backsAll fun m hm => mem_takeWhere hm
  unfold flush
  simp only [ends_bind, ends_get, ends_set]
  exact ends_reconcileAll h.frames hb

/-- The copies in the TLB are written back, and their `used` bits go off. -/
theorem ends_harvest (h : k.Sound pins none) :
    Ends V (harvest (σ := σ)).run k Q ↔ Q (.ok ()) { k with
      tlb := k.tlb.harvest.2
      residency := k.residency.absorb k.tlb.harvest.1 } := by
  have hb : k.residency.BacksAll k.tlb.harvest.1 :=
    h.backsAll fun m hm => (List.mem_filter.1 hm).1
  unfold harvest
  simp only [ends_bind, ends_get, ends_set]
  exact ends_reconcileAll h.frames hb

/-- The copies of one frame are written back and leave the TLB. -/
theorem ends_shootDown (h : k.Sound pins none) :
    Ends V (shootDown (σ := σ) f).run k Q ↔ Q (.ok ()) { k with
      tlb := (k.tlb.takeFrame f).2
      residency := k.residency.absorb ((k.tlb.takeFrame f).1.map (·.2)) } := by
  have hb : k.residency.BacksAll ((k.tlb.takeFrame f).1.map (·.2)) :=
    h.backsAll fun m hm => mem_takeWhere hm
  unfold shootDown
  simp only [ends_bind, ends_get, ends_set]
  exact ends_reconcileAll h.frames hb

/-- The slot that a mapping goes to gives its copy up. -/
theorem ends_install (h : k.Sound pins none) (hv : m.valid = true)
    (hslot : k.tlb.slots[(k.tlb.chooseSlot pid m.vpn k.choices).1]? = some slot) :
    Ends V (install (σ := σ) pid m).run k Q ↔ Q (.ok ()) { k with
      tlb := ⟨k.tlb.slots.set (k.tlb.chooseSlot pid m.vpn k.choices).1 ⟨m, some pid⟩⟩
      choices := (k.tlb.chooseSlot pid m.vpn k.choices).2
      residency := k.residency.absorb [slot.mapping] } := by
  have hmem : slot ∈ k.tlb.slots := List.mem_of_getElem? hslot
  have hb : slot.mapping.valid = true → ∃ q, k.residency.Backs q slot.mapping :=
    h.tlb.backsAll _ (List.mem_map.2 ⟨slot, hmem, rfl⟩)
  have hrec := h.frames.reconcile_eq hb
  have hreplace : k.tlb.replace (k.tlb.chooseSlot pid m.vpn k.choices).1 pid m =
      .ok (slot.held, ⟨k.tlb.slots.set (k.tlb.chooseSlot pid m.vpn k.choices).1 ⟨m, some pid⟩⟩) := by
    unfold Tlb.replace
    rw [hslot]
  unfold install
  simp only [ends_bind, ends_get, ends_set, ends_lift, Checked.require, hv, if_true, hreplace,
    Checked.ends_ok]
  cases hsv : slot.mapping.valid with
  | false =>
    have hheld : slot.held = none := by simp [TlbSlot.held, hsv]
    have hnone : k.residency.absorb [slot.mapping] = k.residency := by
      rw [Residency.reconcile, hsv] at hrec
      exact (Except.ok.inj hrec).symm
    rw [hheld, hnone]
    exact ends_pure
  | true =>
    obtain ⟨q, ho, -⟩ := h.tlb.tagged hmem hsv
    have hheld : slot.held = some (q, slot.mapping) := by simp [TlbSlot.held, hsv, ho]
    simp only [hheld, onResidency, ends_bind, ends_get, ends_set, ends_lift, hrec, Checked.ends_ok]

end Copies

/-! ## What these keep -/

theorem Sound.flushed (h : k.Sound pins none) :
    Sound pins none { k with
      tlb := k.tlb.drain.2, residency := k.residency.absorb (k.tlb.drain.1.map (·.2)) } :=
  h.absorb (h.backsAll fun _ hm => mem_takeWhere hm) (h.tlb.takeWhere _)

theorem Sound.harvested (h : k.Sound pins none) :
    Sound pins none { k with
      tlb := k.tlb.harvest.2, residency := k.residency.absorb k.tlb.harvest.1 } :=
  h.absorb (h.backsAll fun _ hm => (List.mem_filter.1 hm).1) h.tlb.harvest

theorem Sound.shotDown (h : k.Sound pins none) :
    Sound pins none { k with
      tlb := (k.tlb.takeFrame f).2
      residency := k.residency.absorb ((k.tlb.takeFrame f).1.map (·.2)) } :=
  h.absorb (h.backsAll fun _ hm => mem_takeWhere hm) (h.tlb.takeWhere _)

/-- No slot leads to a frame that was shot down. -/
theorem ne_of_takeFrame (hs : slot ∈ (k.tlb.takeFrame f).2.slots) (hv : slot.mapping.valid = true) :
    slot.mapping.ppn ≠ f := by
  obtain ⟨s, -, rfl⟩ := List.mem_map.1 hs
  intro hf
  by_cases hgo : (s.mapping.valid && s.mapping.ppn == f) = true
  · simp only [hgo, if_true] at hv
    cases hv
  · simp only [hgo, Bool.false_eq_true, if_false] at hv hf
    simp [hv, hf] at hgo

theorem Sound.installed (h : k.Sound pins none) (hv : m.valid = true) (hb : k.residency.Backs pid m)
    (hslot : k.tlb.slots[(k.tlb.chooseSlot pid m.vpn k.choices).1]? = some slot) :
    Sound pins none { k with
      tlb := ⟨k.tlb.slots.set (k.tlb.chooseSlot pid m.vpn k.choices).1 ⟨m, some pid⟩⟩
      choices := (k.tlb.chooseSlot pid m.vpn k.choices).2
      residency := k.residency.absorb [slot.mapping] } := by
  have hmem : slot.mapping ∈ k.tlb.mappings := List.mem_map.2 ⟨slot, List.mem_of_getElem? hslot, rfl⟩
  refine h.absorb (h.backsAll fun m' hm' => ?_) (h.tlb.set hb hv fun hj hjv hf => ?_)
  · obtain rfl := List.mem_singleton.1 hm'
    exact hmem
  · exact h.tlb.chooseSlot_alone h.frames hb hj hjv hf

end Kernel

end DemandPaging
