/-
  Taking a frame from its page keeps the kernel sound.

  `Vacated` and `Allocated` list the ways in which a frame is taken from a page, and in
  which a fault gets one, each with the state it leaves.  Every consequence is drawn from
  these lists.
-/
import DemandPaging.Kernel.Evict
import DemandPaging.Proofs.Slots
import DemandPaging.Proofs.Sound

namespace DemandPaging.Kernel

variable {σ : Type} {c : Conduct σ} {V : Violation → Prop} {pins : Frame → Nat}
  {k k' k₁ : Kernel σ} {pid q : Pid} {v w : Vpn} {e : PageEntry} {f g : Frame}

/-- The kernel once the copies of frame `f` have been written back and left the TLB. -/
def shotDown (k : Kernel σ) (f : Frame) : Kernel σ :=
  { k with
    tlb := (k.tlb.takeFrame f).2
    residency := k.residency.absorb ((k.tlb.takeFrame f).1.map (·.2)) }

/-- The kernel once all copies have been written back and their `used` bits are off. -/
def harvested (k : Kernel σ) : Kernel σ :=
  { k with tlb := k.tlb.harvest.2, residency := k.residency.absorb k.tlb.harvest.1 }

/-- The kernel without page `v` of process `pid` in frame `f`: the page is elsewhere now,
    and the frame has no owner. -/
def withoutPage (k : Kernel σ) (f : Frame) (pid : Pid) (v : Vpn) (e : PageEntry)
    (state : PageState) (swap : SwapSpace σ) : Kernel σ :=
  { k with
    residency := k.residency.link pid v (e.evicted state) f {}
    swap
    evictions := k.evictions + 1 }

@[simp] theorem residency_withoutPage {state : PageState} {swap : SwapSpace σ} :
    (k.withoutPage f pid v e state swap).residency = k.residency.link pid v (e.evicted state) f {} :=
  rfl

/-- How taking frame `f` from page `v` of process `pid`, with entry `e`, may end when no copy
    is left in the TLB. -/
inductive Vacated (c : Conduct σ) (f : Frame) (pid : Pid) (v : Vpn) (e : PageEntry)
    (k : Kernel σ) : Except PagingError Unit → Kernel σ → Prop where
  /-- The image or a zero page can bring the content back. -/
  | dropped (hneeds : e.needsSwap = false) :
    Vacated c f pid v e k (.ok ()) (k.withoutPage f pid v e .absent k.swap)
  | saved {s swap} (hneeds : e.needsSwap = true)
    (hswap : SwapSpace.SwappedOut c ⟨pid, v⟩ (k.memory.frameBytes f) k.swap (.ok s) swap) :
    Vacated c f pid v e k (.ok ()) (k.withoutPage f pid v e (.swapped s) swap)
  /-- The store did not take the content: the page stays. -/
  | refused {error swap} (hneeds : e.needsSwap = true)
    (hswap : SwapSpace.SwappedOut c ⟨pid, v⟩ (k.memory.frameBytes f) k.swap (.error error) swap) :
    Vacated c f pid v e k (.error (.swap error)) { k with swap }

section Vacating

variable [BackingStore σ]

/-- What is resident where, and what is pinned, does not matter for a transfer. -/
theorem ends_writeOut (hc : c.Holds V) (h : k.memory.Formed) (hf : f < k.memory.numFrames)
    (hsize : k.swap.pageSize = k.memory.pageSize) {owner : SlotOwner} {r : Residency}
    {Q : Except PagingError SlotIndex → Kernel σ → Prop}
    (hQ : ∀ result swap,
      SwapSpace.SwappedOut c owner (k.memory.frameBytes f) k.swap result swap →
        Q (result.mapError .swap) { k with residency := r, swap }) :
    Ends V (writeOut f owner).run { k with residency := r } Q := by
  have hread : (k.memory.readFrame f k.memory.pageSize).run = .ok (.ok (k.memory.frameBytes f)) :=
    PhysicalMemory.readFrame_eq h hf
  unfold writeOut
  refine ends_bind.2 ((ends_reading hread).2 (ends_onSwap.2 ?_))
  exact SwapSpace.ends_swapOut hc ((PhysicalMemory.length_frameBytes h hf).trans hsize.symm)
    fun r swap hswap => hQ r swap hswap

/-- While the content is written out the frame is pinned, and is not afterwards. -/
theorem ends_save (hc : c.Holds V) (h : k.Sound pins none)
    (he : k.residency.page? pid v = some e) (hs : e.state = .resident f) (hpins : pins f = 0)
    {Q : Except PagingError PageState → Kernel σ → Prop}
    (hdrop : e.needsSwap = false → Q (.ok .absent) k)
    (hsave : e.needsSwap = true → ∀ r swap,
      SwapSpace.SwappedOut c ⟨pid, v⟩ (k.memory.frameBytes f) k.swap r swap →
        Q ((r.mapError .swap).map .swapped) { k with swap }) :
    Ends V (save f pid e).run k Q := by
  have hinfo := (h.frames.resident he hs).2
  have hf : f < k.memory.numFrames := h.numFrames ▸ FrameTable.lt_size hinfo
  unfold save
  rw [ends_ite]
  refine ⟨fun hneeds => ?_, fun hneeds => hdrop (by simpa using hneeds)⟩
  have hpin := FrameTable.pin_eq hinfo (by simp [FrameInfo.holding, hpins, limit32])
  rw [ends_bind, ends_onFrames hpin]
  simp only [ends_bind, ends_observe, h.frames.numbered he]
  refine ends_writeOut hc h.memory hf h.swapSize fun r swap hswap => ?_
  have hunpin : (k.residency.frames.put f
      { FrameInfo.holding pid e (pins f) with
        pinCount := (FrameInfo.holding pid e (pins f)).pinCount + 1 }).unpin f =
      .ok k.residency.frames := by
    rw [FrameTable.unpin_eq (FrameTable.info?_put_self hinfo) (Nat.succ_pos _)
      (by simp [FrameInfo.holding]), FrameTable.put_put]
    exact congrArg Except.ok (FrameTable.put_info hinfo)
  rw [ends_onFrames hunpin]
  have hkeep := hsave hneeds r swap hswap
  cases r with
  | error error => exact hkeep
  | ok s => exact hkeep

/-- Taking a frame from a page that no pin keeps there. -/
theorem ends_vacate (hc : c.Holds V) (h : k.Sound pins none)
    (he : k.residency.page? pid v = some e) (hs : e.state = .resident f) (hpins : pins f = 0)
    {Q : Except PagingError Unit → Kernel σ → Prop}
    (hQ : ∀ e' r k', (k.shotDown f).residency.page? pid v = some e' → e'.state = .resident f →
      Vacated c f pid v e' (k.shotDown f) r k' → Q r k') :
    Ends V (vacate f pid).run k Q := by
  have h₁ : (k.shotDown f).Sound pins none := h.shotDown
  have he₁ : (k.shotDown f).residency.page? pid v = some (e.absorb ((k.tlb.takeFrame f).1.map (·.2))) :=
    Residency.page?_absorb.trans (by rw [he]; rfl)
  have hs₁ : (e.absorb ((k.tlb.takeFrame f).1.map (·.2))).state = .resident f :=
    PageEntry.state_absorb.trans hs
  revert he₁ hs₁
  generalize e.absorb ((k.tlb.takeFrame f).1.map (·.2)) = e'
  intro he₁ hs₁
  have hinfo := (h₁.frames.resident he₁ hs₁).2
  obtain ⟨p, hp, hreg, hentry⟩ := Residency.page?_eq_some_iff.1 he₁
  have htable : (k.shotDown f).residency.table? pid = some p.table :=
    Residency.table?_eq_some_iff.2 ⟨p, hp, hreg, rfl⟩
  have hvpn : (FrameInfo.holding pid e' (pins f)).mapping.vpn = v := h₁.frames.numbered he₁
  unfold vacate
  rw [ends_bind, ends_shootDown h]
  change Ends V _ (k.shotDown f) Q
  simp only [ends_bind, ends_get, ends_lift, FrameTable.lookup_eq hinfo, Checked.ends_ok, hvpn,
    htable, ends_ofExcept, PageTable.get_eq hentry, mapError_ok, hs₁, Checked.require,
    decide_true, if_true]
  have hfinal : ∀ (k₂ : Kernel σ) (state : PageState), k₂.residency = (k.shotDown f).residency →
      Q (.ok ()) (k₂.withoutPage f pid v e' state k₂.swap) →
      Ends V (do
        onResidency fun r => .ok (r.setEntry pid v (e'.evicted state))
        onFrames (·.release f)
        modify fun k => { k with evictions := k.evictions + 1 } : KernelM σ Unit).run k₂ Q := by
    intro k₂ state hk₂ hq
    have hrelease : ((k₂.residency.setEntry pid v (e'.evicted state)).frames.release f) =
        .ok (k₂.residency.frames.put f {}) := by
      rw [Residency.setEntry, Residency.frames_updateProcess, hk₂, FrameTable.release_eq hinfo]
      rw [FrameInfo.holding, hpins]
    refine ends_bind.2 (ends_change.2 ?_)
    exact ends_bind.2 ((ends_onFrames hrelease).2 hq)
  simp only [ends_bind] at hfinal
  refine ends_save hc h₁ he₁ hs₁ hpins (fun hneeds => ?_) fun hneeds r swap hswap => ?_
  · exact hfinal _ _ rfl (hQ e' _ _ he₁ hs₁ (.dropped hneeds))
  · cases r with
    | error error => exact hQ e' _ _ he₁ hs₁ (.refused hneeds hswap)
    | ok s => exact hfinal { k.shotDown f with swap } _ rfl (hQ e' _ _ he₁ hs₁ (.saved hneeds hswap))

end Vacating

/-! ## What a frame taken leaves behind -/

/-- The page that lost its frame lives in the state `state`, and the swap area knows. -/
theorem Sound.withoutPage (h : k.Sound pins none) (he : k.residency.page? pid v = some e)
    (hs : e.state = .resident f)
    (hout : ∀ slot ∈ k.tlb.slots, slot.mapping.valid = true → slot.mapping.ppn ≠ f)
    {state : PageState} (hstate : ∀ g, state ≠ .resident g) {swap : SwapSpace σ}
    (hsize : swap.pageSize = k.swap.pageSize)
    (hmine : ∀ s, state = .swapped s → swap.slots.owner s = some ⟨pid, v⟩)
    (hother : ∀ s o, k.swap.slots.owner s = some o → swap.slots.owner s = some o) :
    Sound pins (some f) (k.withoutPage f pid v e state swap) := by
  have hclean : e.readOnly = true → e.dirty = false := h.frames.clean he
  have hpage : ∀ q w, (k.residency.link pid v (e.evicted state) f {}).page? q w =
      if q = pid ∧ w = v then some (e.evicted state) else k.residency.page? q w :=
    fun q w => Residency.page?_link he
  have houtline : ∀ q, (k.residency.link pid v (e.evicted state) f {}).outline? q =
      k.residency.outline? q := fun q => Residency.outline?_link he rfl
  refine {
    frames := h.frames.unload he hs hstate rfl rfl hclean
    tlb := h.tlb.mono ?_, slots := ?_, memory := h.memory
    numFrames := FrameTable.size_put.trans h.numFrames
    swapSize := hsize.trans h.swapSize, physPages := h.physPages, divisible := h.divisible
    laid := fun ho => h.laid ((houtline _).symm.trans ho) }
  · rintro slot q hslot hv - ⟨e₁, he₁, hs₁, hro⟩
    refine ⟨e₁, ?_, hs₁, hro⟩
    rw [residency_withoutPage, hpage, if_neg, he₁]
    rintro ⟨rfl, rfl⟩
    cases he.symm.trans he₁
    exact hout slot hslot hv (PageState.resident.inj (hs₁.symm.trans hs))
  · intro s q w hst
    rw [residency_withoutPage, hpage] at hst
    split at hst
    · next hqw =>
      rw [hqw.1, hqw.2]
      exact hmine s (Option.some.inj hst)
    · exact hother s _ (h.slots s q w hst)

/-- How a fault's frame has been gained, as far as the rest of the kernel is concerned. -/
structure Gained (pins : Frame → Nat) (f : Frame) (k k' : Kernel σ) : Prop where
  sound : k'.Sound pins (some f)
  unpinned : pins f = 0
  blank : k'.residency.frames.info? f = some {}
  keeps : k.Keeps k'
  memory : k'.memory = k.memory
  faults : k'.pageFaults = k.pageFaults
  /-- Pages that are in no frame stay where they are. -/
  elsewhere : ∀ {pid v e}, k.residency.page? pid v = some e → (∀ g, e.state ≠ .resident g) →
    k'.residency.page? pid v = some e

/-- Without a frame for the fault nothing has changed but bits. -/
structure Undisturbed (pins : Frame → Nat) (k k' : Kernel σ) : Prop where
  sound : k'.Sound pins none
  keeps : k.Keeps k'
  memory : k'.memory = k.memory
  faults : k'.pageFaults = k.pageFaults
  elsewhere : ∀ {pid v e}, k.residency.page? pid v = some e → (∀ g, e.state ≠ .resident g) →
    k'.residency.page? pid v = some e

theorem Vacated.gained (hvac : Vacated c f pid v e k (.ok ()) k') (h : k.Sound pins none)
    (he : k.residency.page? pid v = some e) (hs : e.state = .resident f) (hpins : pins f = 0)
    (hout : ∀ slot ∈ k.tlb.slots, slot.mapping.valid = true → slot.mapping.ppn ≠ f) :
    Gained pins f k k' := by
  have hblank : (k.residency.frames.put f {}).info? f = some {} :=
    FrameTable.info?_put_self (h.frames.resident he hs).2
  have hother : ∀ {state : PageState} {q w e₁}, k.residency.page? q w = some e₁ →
      (∀ g, e₁.state ≠ .resident g) →
      (k.residency.link pid v (e.evicted state) f {}).page? q w = some e₁ := by
    intro state q w e₁ he₁ hs₁
    rw [Residency.page?_link he, if_neg, he₁]
    rintro ⟨rfl, rfl⟩
    cases he.symm.trans he₁
    exact hs₁ f hs
  have hkeeps : ∀ {state : PageState} {swap : SwapSpace σ},
      k.Keeps (k.withoutPage f pid v e state swap) :=
    ⟨rfl, rfl, rfl, rfl, fun _ => Residency.outline?_link he rfl⟩
  cases hvac with
  | dropped _ =>
    exact ⟨h.withoutPage he hs hout (by simp) rfl (by simp) fun _ _ => id, hpins, hblank, hkeeps, rfl,
      rfl, hother⟩
  | saved _ hswap =>
    cases hswap with
    | done _ =>
      refine ⟨h.withoutPage he hs hout (by simp) rfl ?_ fun s o ho => ?_, hpins, hblank, hkeeps, rfl,
        rfl, hother⟩
      · rintro _ ⟨⟩
        exact SlotTable.owner_allocate.trans (if_pos rfl)
      · refine SlotTable.owner_allocate.trans ((if_neg ?_).trans ho)
        rintro rfl
        cases SlotTable.owner_next.symm.trans ho

theorem Vacated.undisturbed {error : PagingError} (hvac : Vacated c f pid v e k (.error error) k')
    (h : k.Sound pins none) : Undisturbed pins k k' := by
  cases hvac with
  | refused _ hswap =>
    cases hswap with
    | failed _ hslots =>
      refine ⟨?_, ⟨rfl, rfl, rfl, rfl, fun _ => rfl⟩, rfl, rfl, fun he _ => he⟩
      exact ⟨h.frames, h.tlb, fun s q w hstate => (hslots s).trans (h.slots s q w hstate), h.memory,
        h.numFrames, h.swapSize, h.physPages, h.divisible, h.laid⟩

/-! ## Getting a frame -/

/-- The kernel once all copies have been written back and the hand has moved on. -/
def swept (k : Kernel σ) (r : Residency) : Kernel σ := { k.harvested with residency := r }

/-- The clock gives frame `f`, which no pin keeps, and page `v` of process `pid` is in it. -/
structure Chosen (pins : Frame → Nat) (k : Kernel σ) (f : Frame) (pid : Pid) (v : Vpn)
    (e : PageEntry) (r : Residency) : Prop where
  empty : k.residency.frames.takeOne = none
  swept : Residency.SweptTo pins k.harvested.residency (some (f, pid)) r
  unpinned : pins f = 0
  page : ((k.swept r).shotDown f).residency.page? pid v = some e
  state : e.state = .resident f

/-- How getting a frame may end: the pool has one, the frame is taken from the page that the
    clock gives, or there is none to take. -/
inductive Allocated (c : Conduct σ) (pins : Frame → Nat) (k : Kernel σ) :
    Except PagingError Frame → Kernel σ → Prop where
  | pooled {f table} (htake : k.residency.frames.takeOne = some (f, table)) :
    Allocated c pins k (.ok f) { k with residency := { k.residency with frames := table } }
  | noVictim {r} (hempty : k.residency.frames.takeOne = none)
    (hselect : k.harvested.residency.selectVictim = .ok (none, r))
    (hswept : Residency.SweptTo pins k.harvested.residency none r) :
    Allocated c pins k (.error .outOfMemory) (k.swept r)
  | taken {f pid v e r k'} (hchosen : Chosen pins k f pid v e r)
    (hvac : Vacated c f pid v e ((k.swept r).shotDown f) (.ok ()) k') :
    Allocated c pins k (.ok f) k'
  | refused {f pid v e r error k'} (hchosen : Chosen pins k f pid v e r)
    (hvac : Vacated c f pid v e ((k.swept r).shotDown f) (.error error) k') :
    Allocated c pins k (.error error) k'

theorem Sound.swept {victim : Option (Frame × Pid)} {r : Residency} (h : k.Sound pins none)
    (hswept : Residency.SweptTo pins k.harvested.residency victim r) :
    (k.swept r).Sound pins none := by
  have h₁ : k.harvested.Sound pins none := h.harvested
  refine h₁.of_residency hswept.coherent (h₁.tlb.mono ?_) (fun _ _ => hswept.cools.states)
    hswept.size hswept.cools.outline
  rintro slot q - - - ⟨e, he, hs, hro, hclean⟩
  obtain ⟨e', he', heq⟩ := hswept.cools.page?_some he
  refine ⟨e', he', ?_, hro.trans ?_, hclean⟩
  · exact (congrArg PageEntry.state heq).trans hs
  · exact (congrArg PageEntry.readOnly heq).symm

section Allocating

variable [BackingStore σ]

/-- The choice of a victim, and the taking of its frame. -/
theorem ends_evict (hc : c.Holds V) (h : k.Sound pins none)
    {Q : Except PagingError Frame → Kernel σ → Prop}
    (hnone : ∀ r, k.harvested.residency.selectVictim = .ok (none, r) →
      Residency.SweptTo pins k.harvested.residency none r → Q (.error .outOfMemory) (k.swept r))
    (hsome : ∀ f pid v e r result k',
      k.harvested.residency.selectVictim = .ok (some (f, pid), r) →
      Residency.SweptTo pins k.harvested.residency (some (f, pid)) r → pins f = 0 →
      ((k.swept r).shotDown f).residency.page? pid v = some e → e.state = .resident f →
      Vacated c f pid v e ((k.swept r).shotDown f) result k' → Q (result.map fun _ => f) k') :
    Ends V evict.run k Q := by
  obtain ⟨victim, r, hrun, hswept⟩ := h.harvested.frames.selectVictim
  unfold evict
  rw [ends_bind, ends_harvest h]
  simp only [ends_bind, ends_get, ends_lift, hrun, Checked.ends_ok, ends_modify]
  change Ends V _ (k.swept r) Q
  cases victim with
  | none => exact hnone r hrun hswept
  | some victim =>
    obtain ⟨f, pid⟩ := victim
    have h₁ := h.swept hswept
    obtain ⟨i, hi, ho, hpin⟩ := hswept.owned rfl
    obtain ⟨e, he, hs, -⟩ := hswept.coherent.owned hi (by simp) ho
    have hpins : pins f = 0 := (hswept.coherent.pinned hi (by simp)).symm.trans hpin
    refine ends_bind.2 (ends_vacate hc h₁ he hs hpins ?_)
    intro e' result k' he' hs' hvac
    have hdone := hsome f pid _ e' r result k' hrun hswept hpins he' hs' hvac
    cases result with
    | error error => exact hdone
    | ok _ => exact hdone

theorem ends_allocateFrame (hc : c.Holds V) (h : k.Sound pins none)
    {Q : Except PagingError Frame → Kernel σ → Prop}
    (hQ : ∀ r k', Allocated c pins k r k' → Q r k') :
    Ends V allocateFrame.run k Q := by
  unfold allocateFrame
  rw [ends_bind, ends_get]
  dsimp only
  cases htake : k.residency.frames.takeOne with
  | some taken =>
    obtain ⟨f, table⟩ := taken
    have htable : (fun _ : FrameTable => (.ok table : Checked FrameTable)) k.residency.frames =
      .ok table := rfl
    exact ends_bind.2 ((ends_onFrames htable).2 (hQ _ _ (.pooled htake)))
  | none =>
    refine ends_evict hc h (fun r hrun hswept => hQ _ _ (.noVictim htake hrun hswept)) ?_
    intro f pid v e r result k' _ hswept hpins he hs hvac
    have hchosen : Chosen pins k f pid v e r := ⟨htake, hswept, hpins, he, hs⟩
    cases result with
    | error error => exact hQ _ _ (.refused hchosen hvac)
    | ok _ => exact hQ _ _ (.taken hchosen hvac)

end Allocating

/-! ## What getting a frame leaves behind -/

theorem swept_undisturbed {victim : Option (Frame × Pid)} {r : Residency} (h : k.Sound pins none)
    (hswept : Residency.SweptTo pins k.harvested.residency victim r) :
    Undisturbed pins k (k.swept r) where
  sound := h.swept hswept
  keeps := ⟨rfl, rfl, rfl, List.length_map _, fun q =>
    (hswept.cools.outline q).trans (Residency.outline?_map fun _ => PageEntry.readOnly_absorb)⟩
  memory := rfl
  faults := rfl
  elsewhere he hs := hswept.cools.elsewhere (Residency.page?_absorb.trans (by
    rw [he, Option.map_some, PageEntry.absorb_of_not_resident hs])) hs

theorem shotDown_undisturbed (h : k.Sound pins none) : Undisturbed pins k (k.shotDown f) where
  sound := h.shotDown
  keeps := ⟨rfl, rfl, rfl, List.length_map _, fun _ =>
    Residency.outline?_map fun _ => PageEntry.readOnly_absorb⟩
  memory := rfl
  faults := rfl
  elsewhere he hs := Residency.page?_absorb.trans (by
    rw [he, Option.map_some, PageEntry.absorb_of_not_resident hs])

theorem Undisturbed.trans (h : Undisturbed pins k k₁) (h' : Undisturbed pins k₁ k') :
    Undisturbed pins k k' :=
  ⟨h'.sound, h.keeps.trans h'.keeps, h'.memory.trans h.memory, h'.faults.trans h.faults,
    fun he hs => h'.elsewhere (h.elsewhere he hs) hs⟩

theorem Undisturbed.gained (h : Undisturbed pins k k₁) (h' : Gained pins f k₁ k') :
    Gained pins f k k' :=
  ⟨h'.sound, h'.unpinned, h'.blank, h.keeps.trans h'.keeps, h'.memory.trans h.memory,
    h'.faults.trans h.faults, fun he hs => h'.elsewhere (h.elsewhere he hs) hs⟩

/-- Up to the page that has to leave, only bits change. -/
theorem Chosen.undisturbed {r : Residency} (hchosen : Chosen pins k f pid v e r)
    (h : k.Sound pins none) : Undisturbed pins k ((k.swept r).shotDown f) :=
  (swept_undisturbed h hchosen.swept).trans (shotDown_undisturbed (h.swept hchosen.swept))

/-- A frame that was gained is blank and leads to no page, and the kernel is sound. -/
theorem Allocated.gained (hall : Allocated c pins k (.ok f) k') (h : k.Sound pins none) :
    Gained pins f k k' := by
  cases hall with
  | pooled htake =>
    obtain ⟨hr, hblank⟩ := h.frames.takeOne htake
    have hframes := (FrameTable.takeOne_eq_some htake).1
    refine ⟨?_, ?_, hblank, ⟨rfl, rfl, rfl, rfl, fun _ => Residency.outline?_frames⟩, rfl, rfl, ?_⟩
    · refine h.of_residency hr (h.tlb.mono fun _ _ _ hb => ?_) (fun q w => ?_) ?_
        fun _ => Residency.outline?_frames
      · obtain ⟨e, he, hrest⟩ := hb
        exact ⟨e, Residency.page?_frames.trans he, hrest⟩
      · rw [Residency.page?_frames]
      · rw [FrameTable.size, hframes]
        rfl
    · have hi : k.residency.frames.info? f = some {} := by
        rw [← hblank, FrameTable.info?, FrameTable.info?, hframes]
      exact (h.frames.pinned hi (by simp)).symm
    · exact fun he _ => Residency.page?_frames.trans he
  | taken hchosen hvac =>
    have hbits := hchosen.undisturbed h
    exact hbits.gained (hvac.gained hbits.sound hchosen.page hchosen.state hchosen.unpinned
      fun _ hslot hv => ne_of_takeFrame hslot hv)

/-- A frame in the pool is always given. -/
theorem Allocated.pool_of_error {error : PagingError}
    (hall : Allocated c pins k (.error error) k') : k.residency.frames.pool.toList = [] := by
  rw [← FrameTable.takeOne_eq_none]
  cases hall with
  | noVictim hempty => exact hempty
  | refused hchosen => exact hchosen.empty

theorem Allocated.undisturbed {error : PagingError} (hall : Allocated c pins k (.error error) k')
    (h : k.Sound pins none) : Undisturbed pins k k' := by
  cases hall with
  | noVictim _ _ hswept => exact swept_undisturbed h hswept
  | refused hchosen hvac =>
    have hbits := hchosen.undisturbed h
    exact hbits.trans (hvac.undisturbed hbits.sound)

end DemandPaging.Kernel
