/-
  Settled kernels: kernels without a TLB.

  `Kernel.settle t k` is the kernel `k` with every TLB copy written back, without a TLB, and on
  a store to which `t` carries the calls of its own.  What the kernel does between settled
  states is what it does: the parts that look at no TLB commute with `settle`, and those that
  only move bits between the TLB and the tables leave the settled state as it is.
-/
import DemandPaging.Proofs.Behaviour
import DemandPaging.Proofs.Fault
import DemandPaging.Proofs.TlbBits

namespace DemandPaging.Kernel

variable {σ τ α β : Type} {t : σ → τ} {w : α → β} {pins : Frame → Nat} {loose : Option Frame}
  {k k' : Kernel σ} {pid : Pid} {v : Vpn} {e : PageEntry} {f : Frame} {m : Mapping} {i : Nat}
  {slot : TlbSlot} {write : Bool}

/-- The kernel without a TLB, every copy written back, on another store. -/
def settle (t : σ → τ) (k : Kernel σ) : Kernel τ where
  config := { k.config with tlbSize := 0 }
  memory := k.memory
  residency := k.residency.settle k.tlb.mappings
  swap := k.swap.mapStore t
  tlb := ⟨[]⟩
  sections := k.sections
  pageFaults := k.pageFaults
  evictions := k.evictions

/-! ## Parts of the state -/

section Parts

theorem onResidency_eq_ok {c : Residency → Checked Residency} {a : Except PagingError Unit}
    (h : (onResidency (σ := σ) c).run.run k = .ok (a, k')) :
    ∃ r, c k.residency = .ok r ∧ k' = { k with residency := r } := by
  have hends : Ends (fun _ => True) (onResidency (σ := σ) c).run k fun _ k' =>
      ∃ r, c k.residency = .ok r ∧ k' = { k with residency := r } := by
    unfold onResidency
    simp only [ends_bind, ends_get, ends_lift, ends_set]
    cases hc : c k.residency with
    | error v => trivial
    | ok r => exact ⟨r, rfl, rfl⟩
  exact hends.of_run h

theorem follows_onResidency {c c' : Residency → Checked Residency}
    (hc : c' (k.residency.settle k.tlb.mappings) =
      Residency.settle k.tlb.mappings <$> c k.residency) :
    Tracks (settle t) id (onResidency c) (onResidency c') k := by
  exact follows_get (follows_lift hc fun r _ => follows_put rfl)

/-- A change of the residency, and what comes after it. -/
theorem follows_onResidency_bind {c c' : Residency → Checked Residency} {g : Unit → KernelM σ α}
    {g' : Unit → KernelM τ β}
    (hc : c' (k.residency.settle k.tlb.mappings) =
      Residency.settle k.tlb.mappings <$> c k.residency)
    (hg : ∀ r, c k.residency = .ok r →
      Tracks (settle t) w (g ()) (g' ()) { k with residency := r }) :
    Tracks (settle t) w (onResidency c >>= g) (onResidency c' >>= g') k := by
  refine follows_bind (follows_onResidency hc) fun _ s' hrun => ?_
  obtain ⟨r, hr, rfl⟩ := onResidency_eq_ok hrun
  exact hg r hr

theorem settle_onFrames {c c' : FrameTable → Checked FrameTable} {r : Residency}
    {copies : List Mapping}
    (hc : c' (r.frames.absorb copies) = FrameTable.absorb copies <$> c r.frames) :
    (do return { r.settle copies with frames := ← c' (r.settle copies).frames } : Checked Residency) =
      Residency.settle copies <$> (do return { r with frames := ← c r.frames } : Checked Residency) := by
  rw [Residency.frames_settle, hc, map_bind, bind_map_left]
  rfl

theorem follows_onFrames {c c' : FrameTable → Checked FrameTable}
    (hc : c' (k.residency.frames.absorb k.tlb.mappings) =
      FrameTable.absorb k.tlb.mappings <$> c k.residency.frames) :
    Tracks (settle t) id (onFrames c) (onFrames c') k :=
  follows_onResidency (settle_onFrames hc)

theorem follows_onFrames_bind {c c' : FrameTable → Checked FrameTable} {g : Unit → KernelM σ α}
    {g' : Unit → KernelM τ β}
    (hc : c' (k.residency.frames.absorb k.tlb.mappings) =
      FrameTable.absorb k.tlb.mappings <$> c k.residency.frames)
    (hg : ∀ table, c k.residency.frames = .ok table → Tracks (settle t) w (g ()) (g' ())
      { k with residency := { k.residency with frames := table } }) :
    Tracks (settle t) w (onFrames c >>= g) (onFrames c' >>= g') k := by
  refine follows_onResidency_bind (settle_onFrames hc) fun r hr => ?_
  cases htable : c k.residency.frames with
  | error e =>
    rw [htable] at hr
    cases hr
  | ok table =>
    rw [htable] at hr
    cases hr
    exact hg table htable

theorem follows_reading {op : PhysicalMemory → Attempt MemoryError α} :
    Tracks (settle t) id (reading op) (reading op) k :=
  follows_get follows_ofAttempt

theorem follows_writing {op : PhysicalMemory → Attempt MemoryError PhysicalMemory} :
    Tracks (settle t) id (writing op) (writing op) k :=
  follows_bind follows_reading fun _ _ _ => follows_change rfl

theorem follows_onSwap {act : Action (SwapSpace σ) StoreError α}
    {act' : Action (SwapSpace τ) StoreError α}
    (hact : Tracks (SwapSpace.mapStore t) id act act' k.swap) :
    Tracks (settle t) id (onSwap act) (onSwap act') k :=
  follows_within hact rfl fun _ => rfl

theorem follows_onSection {sectionId : SectionId} {act : Action Section SectionError α} :
    Tracks (settle t) id (onSection sectionId act) (onSection sectionId act) k := by
  refine follows_get ?_
  have hsections : (k.settle t).sections = k.sections := rfl
  rw [hsections]
  cases k.sections[sectionId]? with
  | none => rfl
  | some s => exact follows_within follows_self rfl fun _ => rfl

theorem follows_process :
    Tracks (settle t) (Process.map (.settle k.tlb.mappings)) (process pid) (process pid) k := by
  refine follows_get ?_
  have hprocess : (k.settle t).residency.process? pid = _ := Residency.process?_settle
  rw [hprocess]
  cases k.residency.process? pid with
  | none => exact follows_throw
  | some p => exact follows_pure rfl

theorem process_eq_ok {p : Process} (h : (process (σ := σ) pid).run.run k = .ok (.ok p, k')) :
    k.residency.process? pid = some p ∧ k' = k := by
  have hends : Ends (fun _ => True) (process (σ := σ) pid).run k fun r k' =>
      ∀ p, r = .ok p → k.residency.process? pid = some p ∧ k' = k := by
    simp only [process, ends_bind, ends_get]
    cases hp : k.residency.process? pid with
    | none =>
      change ∀ p, Except.error _ = Except.ok p → _
      rintro p ⟨⟩
    | some p₀ =>
      rw [ends_pure]
      rintro p ⟨⟩
      exact ⟨rfl, rfl⟩
  exact hends.of_run h p rfl

theorem follows_liveProcess :
    Tracks (settle t) (Process.map (.settle k.tlb.mappings)) (liveProcess pid) (liveProcess pid) k := by
  refine follows_bind follows_process fun p s' hrun => ?_
  obtain ⟨-, rfl⟩ := process_eq_ok hrun
  have hexit : (p.map (.settle s'.tlb.mappings)).exited = p.exited := rfl
  simp only [hexit]
  cases p.exited with
  | true => exact follows_throw
  | false => exact follows_pure rfl

theorem liveProcess_eq_ok {p : Process}
    (h : (liveProcess (σ := σ) pid).run.run k = .ok (.ok p, k')) :
    k.residency.process? pid = some p ∧ p.exited = false ∧ k' = k := by
  have hends : Ends (fun _ => True) (liveProcess (σ := σ) pid).run k fun r k' =>
      ∀ p, r = .ok p → k.residency.process? pid = some p ∧ p.exited = false ∧ k' = k := by
    refine ends_liveProcess (fun _ => (by simp)) fun p hp hlive => ?_
    rintro p' ⟨⟩
    exact ⟨hp, hlive, rfl⟩
  exact hends.of_run h p rfl

end Parts

/-! ## Moving bits -/

section Bits

/-- Copies that leave the TLB as they are written back leave the settled kernel as it is. -/
theorem Sound.settle_absorb (h : k.Sound pins none) {copies : List Mapping} {tlb : Tlb}
    {choices : Choices}
    (hbits : ∀ {pid v e f}, k.residency.page? pid v = some e → e.state = .resident f →
      (e.used || usedIn (copies ++ tlb.mappings) f) = (e.used || usedIn k.tlb.mappings f) ∧
        (e.dirty || dirtyIn (copies ++ tlb.mappings) f) = (e.dirty || dirtyIn k.tlb.mappings f)) :
    settle t { k with tlb, choices, residency := k.residency.absorb copies } = k.settle t := by
  have hr : (k.residency.absorb copies).settle tlb.mappings = k.residency.settle k.tlb.mappings :=
    Residency.settle_absorb.trans (h.frames.settle_congr hbits)
  exact congrArg (fun r => { k.settle t with residency := r }) hr

theorem Sound.settle_harvested (h : k.Sound pins none) : k.harvested.settle t = k.settle t :=
  h.settle_absorb fun _ _ => by rw [Tlb.used_harvest, Tlb.dirty_harvest]; exact ⟨rfl, rfl⟩

theorem Sound.settle_taken (h : k.Sound pins none) (p : TlbSlot → Bool) :
    settle t { k with
      tlb := (k.tlb.takeWhere p).2
      residency := k.residency.absorb ((k.tlb.takeWhere p).1.map (·.2)) } = k.settle t :=
  h.settle_absorb fun _ _ => by
    rw [usedIn_eq, dirtyIn_eq, h.tlb.bit_takeWhere, h.tlb.bit_takeWhere]
    exact ⟨rfl, rfl⟩

theorem follows_harvest (h : k.Sound pins none) : Tracks (settle t) id harvest harvest k :=
  follows_of_ends ((ends_harvest h).2 ⟨rfl, rfl⟩) rfl h.settle_harvested

theorem follows_shootDown (h : k.Sound pins none) :
    Tracks (settle t) id (shootDown f) (shootDown f) k :=
  follows_of_ends ((ends_shootDown h).2 ⟨rfl, rfl⟩) rfl (h.settle_taken _)

/-- Where there is no TLB there is nothing to flush. -/
theorem follows_flush (h : k.Sound pins none) :
    Tracks (settle t) id (flush (σ := σ)) (pure ()) k :=
  follows_of_ends ((ends_flush h).2 ⟨rfl, rfl⟩) rfl (h.settle_taken _)

/-- The frame in hand has no copies in the TLB. -/
theorem Sound.bits_loose (h : k.Sound pins (some f)) :
    usedIn k.tlb.mappings f = false ∧ dirtyIn k.tlb.mappings f = false := by
  have hnone : ∀ m ∈ k.tlb.mappings, m.valid = true → m.ppn ≠ f := by
    rintro m hm hv rfl
    obtain ⟨pid, e, he, hs, -⟩ := h.tlb.backsAll m hm hv
    exact (h.frames.resident he hs).1 rfl
  exact ⟨bitIn_eq_false hnone, bitIn_eq_false hnone⟩

/-- A slot that is overwritten with the mapping of an entry adds no bits to those of the
    entry. -/
theorem Sound.bit_installed (h : k.Sound pins none) {b : Mapping → Bool} {c : PageEntry → Bool}
    (hb : ∀ e, b e.mapping = c e) (hslot : k.tlb.slots[i]? = some slot)
    (he : k.residency.page? pid v = some e) (hs : e.state = .resident f) {q : Pid} {w : Vpn}
    {e₁ : PageEntry} {g : Frame} (he₁ : k.residency.page? q w = some e₁)
    (hs₁ : e₁.state = .resident g) :
    (c e₁ || bitIn b ([slot.mapping] ++
      Tlb.mappings ⟨k.tlb.slots.set i ⟨e.mapping, some pid⟩⟩) g) =
        (c e₁ || bitIn b k.tlb.mappings g) := by
  have hppn : e.mapping.ppn = f := by simp [PageEntry.mapping, PageEntry.frame, hs]
  rw [bitIn_append, Tlb.bit_set hslot, ← Bool.or_assoc]
  congr 1
  by_cases hg : f = g
  · subst hg
    obtain ⟨rfl, rfl⟩ := h.frames.unique he hs he₁ hs₁
    cases he.symm.trans he₁
    cases hbit : c e <;> simp [bitIn, hb, hbit]
  · simp [bitIn, hppn, hg]

/-- A mapping that has the bits of its entry changes nothing when it is put into the TLB. -/
theorem follows_install (h : k.Sound pins none) (hsize : 0 < k.tlb.slots.length)
    (he : k.residency.page? pid v = some e) (hs : e.state = .resident f) :
    Tracks (settle t) id (install pid e.mapping) (pure ()) k := by
  have hvalid : e.mapping.valid = true := by
    simp [PageEntry.mapping, PageEntry.isValid, PageEntry.frame, hs]
  obtain ⟨slot, hslot⟩ : ∃ slot,
      k.tlb.slots[(k.tlb.chooseSlot pid e.mapping.vpn k.choices).1]? = some slot :=
    ⟨_, List.getElem?_eq_getElem (Tlb.chooseSlot_lt hsize)⟩
  refine follows_of_ends ((ends_install h hvalid hslot).2 ⟨rfl, rfl⟩) rfl
    (h.settle_absorb fun he₁ hs₁ => ⟨?_, ?_⟩)
  · exact h.bit_installed (c := (·.used)) (fun _ => rfl) hslot he hs he₁ hs₁
  · exact h.bit_installed (c := (·.dirty)) (fun _ => rfl) hslot he hs he₁ hs₁

end Bits

end DemandPaging.Kernel
