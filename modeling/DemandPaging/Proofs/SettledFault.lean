/-
  Faults between settled kernels.

  A fault looks at bits when it picks a victim and when it decides whether the victim's content
  has to be saved.  Both times the TLB has just been made to give up what matters: a harvest
  leaves no `used` bit there, and a shot down frame no copy at all.  So a fault does to the
  settled kernel what it does to the kernel.
-/
import DemandPaging.Proofs.Settled

namespace DemandPaging.Kernel

variable {σ τ α β : Type} [BackingStore σ] [BackingStore τ] {t : σ → τ} {w : α → β}
  {pins : Frame → Nat} {k k' : Kernel σ} {pid : Pid} {v : Vpn} {e : PageEntry} {f : Frame}
  {p : Process} {owner : SlotOwner} {copies : List Mapping}

/-! ## What leaves the TLB alone -/

omit [BackingStore σ] in
theorem ends_onFrames_any {c : FrameTable → Checked FrameTable}
    {Q : Except PagingError Unit → Kernel σ → Prop}
    (hQ : ∀ table, Q (.ok ()) { k with residency := { k.residency with frames := table } }) :
    Ends (fun _ => True) (onFrames (σ := σ) c).run k Q := by
  unfold onFrames onResidency
  simp only [ends_bind, ends_get, ends_lift, ends_set, Checked.ends_bind, Checked.ends_pure]
  exact Checked.ends_of_forall hQ

/-- Content that is dropped was not changed. -/
theorem ends_save_clean : Ends (fun _ => True) (save f pid e).run k fun r _ =>
    ∀ state, r = .ok state → (∀ g, state ≠ .resident g) ∧ (state = .absent → e.dirty = false) := by
  unfold save
  rw [ends_ite]
  constructor
  · intro _
    refine ends_bind.2 (ends_onFrames_any fun table => ?_)
    refine ends_bind.2 (ends_observe.2 (ends_self.imp fun written k₁ _ => ?_))
    refine ends_bind.2 (ends_onFrames_any fun table => ?_)
    cases written with
    | error e => rintro state ⟨⟩
    | ok s =>
      rintro state ⟨⟩
      exact ⟨(by simp), (by simp)⟩
  · intro hneeds
    rintro state ⟨⟩
    refine ⟨(by simp), fun _ => ?_⟩
    simp only [PageEntry.needsSwap, Bool.or_eq_true, not_or] at hneeds
    simpa using hneeds.1

omit [BackingStore σ] in
theorem ends_loadImagePage_tlb {executable : List SectionId} :
    Ends (fun _ => True) (loadImagePage (σ := σ) executable v).run k fun _ k' => k'.tlb = k.tlb := by
  unfold loadImagePage
  refine ends_bind.2 (ends_get.2 ?_)
  refine ends_bind.2 (ends_lift.2 (Checked.ends_of_forall fun exe => ?_))
  refine ends_bind.2 (ends_lift.2 (Checked.ends_of_forall fun position => ?_))
  dsimp only
  cases position.bind (executable[·]?) with
  | none => exact rfl
  | some sectionId =>
    refine ends_bind.2 (ends_get.2 ?_)
    dsimp only
    cases k.sections[sectionId]? with
    | none => trivial
    | some s => exact ends_within.2 (ends_self.imp fun _ _ _ => rfl)

theorem ends_fill_tlb :
    Ends (fun _ => True) (fill p e f).run k fun _ k' => k'.tlb = k.tlb := by
  have hfetch : Ends (fun _ => True) (fetch p e).run k fun _ k' => k'.tlb = k.tlb := by
    unfold fetch
    refine ends_bind.2 (ends_get.2 ?_)
    cases e.state with
    | resident g => trivial
    | swapped s => exact ends_onSwap.2 (ends_self.imp fun _ _ _ => rfl)
    | absent =>
      refine ends_bind.2 (ends_lift.2 (Checked.ends_of_forall fun exe => ?_))
      refine ends_bind.2 (ends_lift.2 (Checked.ends_of_forall fun n => ?_))
      refine ends_ite.2 ⟨fun _ => ?_, fun _ => rfl⟩
      exact ends_loadImagePage_tlb
  unfold fill
  refine ends_bind.2 (hfetch.imp fun r k₁ htlb => ?_)
  cases r with
  | error e => exact htlb
  | ok page =>
    unfold writing reading
    simp only [ends_bind, ends_get, ends_ofAttempt]
    refine Checked.ends_of_forall fun r => ?_
    cases r <;> exact htlb

/-! ## Taking a frame -/

theorem follows_save (ht : Carries t) : Tracks (settle t) id (save f pid e) (save f pid e) k := by
  unfold save writeOut
  refine follows_ite (fun _ => ?_) fun _ => follows_pure rfl
  refine follows_onFrames_bind FrameTable.pin_absorb fun table _ => ?_
  refine follows_bind (w := Except.map id) (follows_observe ?_) fun written k₁ _ => ?_
  · exact follows_bind follows_reading fun page _ _ => follows_onSwap (SwapSpace.follows_swapOut ht)
  · refine follows_onFrames_bind FrameTable.unpin_absorb fun table _ => ?_
    refine follows_bind (w := id) (follows_ofExcept ?_) fun s _ _ => follows_pure rfl
    cases written <;> rfl

omit [BackingStore σ] in
/-- The copies of a frame that was shot down add no bits. -/
theorem bits_shotDown : usedIn (k.shotDown f).tlb.mappings f = false ∧
    dirtyIn (k.shotDown f).tlb.mappings f = false := by
  have hnone : ∀ m ∈ (k.shotDown f).tlb.mappings, m.valid = true → m.ppn ≠ f := by
    intro m hm hv
    obtain ⟨slot, hslot, rfl⟩ := List.mem_map.1 hm
    exact ne_of_takeFrame hslot hv
  exact ⟨bitIn_eq_false hnone, bitIn_eq_false hnone⟩

theorem follows_vacate (ht : Carries t) (h : k.Sound pins none) :
    Tracks (settle t) id (vacate f pid) (vacate f pid) k := by
  have hshot : Ends (fun _ => True) (shootDown f).run k fun _ k' => k' = k.shotDown f :=
    (ends_shootDown h).2 rfl
  obtain ⟨hused, hdirty⟩ := bits_shotDown (k := k) (f := f)
  unfold vacate
  refine follows_bind_ends (follows_shootDown h) hshot fun _ k₁ hk₁ => ?_
  rw [← hk₁] at hused hdirty
  refine follows_get ?_
  refine follows_lift (w := FrameInfo.absorb k₁.tlb.mappings) FrameTable.lookup_absorb fun i _ => ?_
  have htable : (k₁.settle t).residency.table? pid = _ := Residency.table?_settle
  rw [htable, FrameInfo.absorb, Mapping.vpn_absorb]
  cases k₁.residency.table? pid with
  | none => exact follows_onFrames FrameTable.release_absorb
  | some table =>
    refine follows_ofExcept_bind (w := PageEntry.settle k₁.tlb.mappings) PageTable.get_map
      fun e _ => ?_
    rw [PageEntry.state_settle]
    refine follows_require fun hstate => ?_
    have hs : e.state = .resident f := of_decide_eq_true hstate
    have he : e.settle k₁.tlb.mappings = e := by
      refine PageEntry.settle_eq (by simp [hs]) fun g hg => ?_
      cases hs.symm.trans hg
      exact ⟨hused, hdirty⟩
    rw [he]
    refine follows_bind_ends (follows_save ht) ends_save_clean fun state k₂ hsave => ?_
    obtain ⟨hnot, hclean⟩ := hsave state rfl
    refine follows_onResidency_bind ?_ fun r _ => ?_
    · have hset : (k₂.residency.settle k₂.tlb.mappings).setEntry pid i.mapping.vpn _ = _ :=
        Residency.setEntry_settle (e := e.evicted state)
      rw [PageEntry.settle_evicted hnot hclean] at hset
      exact congrArg Except.ok hset
    · refine follows_onFrames_bind FrameTable.release_absorb fun table _ => ?_
      exact follows_change rfl

theorem follows_allocateFrame (ht : Carries t) (h : k.Sound pins none) :
    Tracks (settle t) id allocateFrame allocateFrame k := by
  unfold allocateFrame
  refine follows_get ?_
  have htake : (k.settle t).residency.frames.takeOne = _ := FrameTable.takeOne_absorb
  rw [htake]
  cases k.residency.frames.takeOne with
  | some taken => exact follows_onFrames_bind rfl fun _ _ => follows_pure rfl
  | none =>
    have hharvest : Ends (fun _ => True) (harvest (σ := σ)).run k fun _ k' => k' = k.harvested :=
      (ends_harvest h).2 rfl
    unfold evict
    refine follows_bind_ends (follows_harvest h) hharvest fun _ k₁ hk₁ => ?_
    subst hk₁
    refine follows_get ?_
    obtain ⟨victim, r, hrun, hswept⟩ := h.harvested.frames.selectVictim
    have hselect : (k.harvested.settle t).residency.selectVictim = _ :=
      Residency.selectVictim_settle fun g => Tlb.usedIn_harvest
    refine follows_lift hselect fun s hs => ?_
    cases hrun.symm.trans hs
    dsimp only
    refine follows_modify rfl ?_
    cases victim with
    | none => exact follows_throw
    | some victim =>
      exact follows_bind (follows_vacate ht (h.swept hswept)) fun _ _ _ => follows_pure rfl

/-! ## Bringing pages in -/

theorem follows_fill (ht : Carries t) :
    Tracks (settle t) id (fill p e f) (fill (p.map (.settle copies)) (e.settle copies) f) k := by
  have hexe : ∀ {ids : List SectionId} {k : Kernel σ}, (k.settle t).executable ids =
    id <$> k.executable ids := fun {ids k} => (id_map (k.executable ids)).symm
  unfold fill
  refine follows_bind (w := id) ?_ fun page _ _ => follows_writing
  unfold fetch
  refine follows_get ?_
  rw [PageEntry.state_settle]
  cases e.state with
  | resident g => rw [PageEntry.vpn_settle]; rfl
  | swapped s => exact follows_onSwap (SwapSpace.follows_swapIn ht)
  | absent =>
    dsimp only
    rw [PageEntry.vpn_settle]
    refine follows_lift hexe fun exe _ => ?_
    refine follows_lift (id_map _).symm fun n _ => ?_
    refine follows_ite (fun _ => ?_) fun _ => follows_pure rfl
    unfold loadImagePage
    refine follows_get (follows_lift hexe fun exe _ => ?_)
    refine follows_lift (id_map _).symm fun position _ => ?_
    have hsame : (id position).bind ((p.map (.settle copies)).executable[·]?) =
        position.bind (p.executable[·]?) := rfl
    rw [hsame]
    cases position.bind (p.executable[·]?) with
    | none => exact follows_throw
    | some sectionId => exact follows_onSection

theorem follows_pageIn (ht : Carries t) (h : k.Sound pins none) :
    Tracks (settle t) id (pageIn pid p e)
      (pageIn pid (p.map (.settle copies)) (e.settle copies)) k := by
  unfold pageIn
  refine follows_modify rfl ?_
  refine follows_bind_ends (follows_allocateFrame ht h.faulting)
    (ends_allocateFrame Conduct.any_holds h.faulting fun _ _ hall => hall) fun f k₁ hall => ?_
  obtain ⟨hused, hdirty⟩ := (hall.gained h.faulting).sound.bits_loose
  rw [PageEntry.vpn_settle, PageEntry.readOnly_settle]
  let m : Mapping := { vpn := e.vpn, ppn := f, readOnly := e.readOnly }
  have hm : m.absorb k₁.tlb.mappings = m := rfl
  refine follows_onFrames_bind (FrameTable.assign_absorb (m := m)) fun table _ => ?_
  refine follows_onFrames_bind FrameTable.pin_absorb fun table _ => ?_
  refine follows_bind_ends (w := Except.map id) (P := fun _ k' => k'.tlb = k₁.tlb)
    (follows_observe (follows_fill ht)) (ends_observe.2 ends_fill_tlb) fun r k₂ htlb => ?_
  cases r with
  | error error =>
    refine follows_onFrames_bind FrameTable.release_absorb fun table _ => ?_
    refine follows_onFrames_bind FrameTable.unpin_absorb fun table _ => ?_
    exact follows_onFrames_bind FrameTable.giveBack_absorb fun table _ => follows_throw
  | ok _ =>
    have hloaded : (e.settle copies).loaded f = e.loaded f := PageEntry.loaded_settle
    have hsettle : (e.loaded f).settle k₂.tlb.mappings = e.loaded f := by
      rw [htlb]
      exact PageEntry.settle_loaded ⟨hused, hdirty⟩
    have hmapping : (e.loaded f).mapping.absorb k₂.tlb.mappings = (e.loaded f).mapping := by
      rw [← PageEntry.mapping_absorb, ← PageEntry.settle_resident (f := f) rfl, hsettle]
    change Tracks (settle t) id _ (do
      onResidency fun r => .ok (r.setEntry pid ((e.settle copies).loaded f).vpn
        ((e.settle copies).loaded f))
      onFrames (·.record f ((e.settle copies).loaded f).mapping)
      onFrames (·.unpin f)
      return ((e.settle copies).loaded f).mapping) k₂
    rw [hloaded]
    refine follows_onResidency_bind ?_ fun r _ => ?_
    · have hset : (k₂.residency.settle k₂.tlb.mappings).setEntry pid (e.loaded f).vpn
          ((e.loaded f).settle k₂.tlb.mappings) = _ := Residency.setEntry_settle
      rw [hsettle] at hset
      exact congrArg Except.ok hset
    · refine follows_onFrames_bind ?_ fun table _ => ?_
      · have hrecord : (r.frames.absorb k₂.tlb.mappings).record f
            ((e.loaded f).mapping.absorb k₂.tlb.mappings) = _ := FrameTable.record_absorb
        rw [hmapping] at hrecord
        exact hrecord
      · exact follows_onFrames_bind FrameTable.unpin_absorb fun table _ => follows_pure rfl

/-! ## Resolving -/

/-- What does not change about the mapping of a page while it is in a frame. -/
def place (m : Mapping) : Frame × Bool := (m.ppn, m.readOnly)

theorem follows_resolve (ht : Carries t) (h : k.Sound pins none) :
    Tracks (settle t) place (resolve pid v) (place <$> resolve pid v) k := by
  unfold resolve
  rw [map_bind]
  refine follows_bind follows_liveProcess fun p k₁ hrun => ?_
  obtain ⟨-, -, rfl⟩ := liveProcess_eq_ok hrun
  rw [map_bind]
  refine follows_ofExcept_bind PageTable.get_map fun e _ => ?_
  rw [PageEntry.isValid_settle]
  cases hvalid : e.isValid with
  | false => exact (follows_pageIn ht h).map place
  | true =>
    refine follows_pure (b := place (e.settle k₁.tlb.mappings).mapping) ?_
    simp [place, PageEntry.mapping, PageEntry.frame]

end DemandPaging.Kernel
