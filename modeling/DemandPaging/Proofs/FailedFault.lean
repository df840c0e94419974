/-
  What a fault that fails leaves behind.

  A fault may fail after its frame was taken from another page, and after a transfer to or from
  swap.  Each of these is undone, or complete in itself (`Undone`): the page is where it was, its
  slot and the other slots in use hold what they held, and no pin is left.  Nothing has moved, or
  one page has been evicted and its frame waits in the pool.

  * `Reachable.failedFault`: every miss that cannot be served, on a store that is an array.
-/
import DemandPaging.Proofs.ArrayStore
import DemandPaging.Proofs.DirtyTracking

namespace DemandPaging

namespace SwapSpace

variable {σ : Type} {content : σ → Nat → UInt8} {swap swap' swap'' : SwapSpace σ} {o : SlotOwner}
  {page : Bytes} {s : SlotIndex}

/-- The slots that are in use keep their owners and their bytes. -/
def SlotsKept (content : σ → Nat → UInt8) (swap swap' : SwapSpace σ) : Prop :=
  ∀ s o, swap.slots.owner s = some o → swap'.slots.owner s = some o ∧
    swap'.slotBytes content s = swap.slotBytes content s

theorem SlotsKept.refl : SlotsKept content swap swap := fun _ _ ho => ⟨ho, rfl⟩

theorem SlotsKept.trans (h : SlotsKept content swap swap') (h' : SlotsKept content swap' swap'') :
    SlotsKept content swap swap'' := by
  intro s o ho
  obtain ⟨ho', hbytes⟩ := h s o ho
  obtain ⟨ho'', hbytes'⟩ := h' s o ho'
  exact ⟨ho'', hbytes'.trans hbytes⟩

theorem SwappedOut.slotsKept {r : Except StoreError SlotIndex}
    (h : SwappedOut (arrayConduct content) o page swap r swap') (hlen : page.length = swap.pageSize) :
    SlotsKept content swap swap' := by
  intro s o' ho
  have hne : s ≠ swap.slots.next := by
    rintro rfl
    rw [SlotTable.owner_next] at ho
    cases ho
  have hbytes : r ≠ .ok s → swap'.slotBytes content s = swap.slotBytes content s :=
    fun hr => h.slotBytes_ne hlen hr
  cases h with
  | done =>
    refine ⟨?_, hbytes fun heq => hne (Except.ok.inj heq).symm⟩
    exact (SlotTable.owner_allocate.trans (if_neg hne)).trans ho
  | failed _ hslots => exact ⟨(hslots s).trans ho, hbytes (by simp)⟩

end SwapSpace

namespace Kernel

variable {σ : Type} {content : σ → Nat → UInt8} {pins : Frame → Nat} {k k' k₁ k₂ : Kernel σ}
  {pid q : Pid} {v w : Vpn} {e : PageEntry} {f : Frame} {p : Process} {vaddr : Nat}

/-! ## Pages and slots -/

/-- No page has moved, and no slot has changed hands. -/
structure Unmoved (k k' : Kernel σ) : Prop where
  states : ∀ q w, (k'.residency.page? q w).map (·.state) = (k.residency.page? q w).map (·.state)
  owners : ∀ s, k'.swap.slots.owner s = k.swap.slots.owner s

/-- Page `w` of process `q` has lost the frame `f`, its content has gone to a new slot if its image
    does not have it, and no other page has moved. -/
structure Ousted (content : σ → Nat → UInt8) (k : Kernel σ) (q : Pid) (w : Vpn) (e : PageEntry)
    (f : Frame) (k' : Kernel σ) : Prop where
  page : k.residency.page? q w = some e
  state : e.state = .resident f
  saved : e.changed k.tlb.mappings = true → ∃ s, k.swap.slots.owner s = none ∧
    (k'.residency.page? q w).map (·.state) = some (.swapped s) ∧
      k'.swap.slots.owner s = some ⟨q, w⟩ ∧ k'.swap.slotBytes content s = k.memory.frameBytes f
  dropped : e.changed k.tlb.mappings = false →
    (k'.residency.page? q w).map (·.state) = some .absent
  others : ∀ q' w', ¬ (q' = q ∧ w' = w) →
    (k'.residency.page? q' w').map (·.state) = (k.residency.page? q' w').map (·.state)

theorem Unmoved.refl : k.Unmoved k := ⟨fun _ _ => rfl, fun _ => rfl⟩

/-- The entry of the page that has to leave says in the end whether the page was changed. -/
theorem Chosen.changed {e₁ : PageEntry} {r : Residency} (hchosen : Chosen pins k f q w e₁ r)
    (h : k.Sound pins none) : ∃ e, k.residency.page? q w = some e ∧ e.state = .resident f ∧
      e.changed k.tlb.mappings = e₁.needsSwap := by
  obtain ⟨e₂, he₂, rfl⟩ := Option.map_eq_some_iff.1
    (Residency.page?_absorb.symm.trans hchosen.page)
  obtain ⟨e₃, he₃, hcold⟩ := hchosen.swept.cools.page?_of_some he₂
  obtain ⟨e, he, rfl⟩ := Option.map_eq_some_iff.1 (Residency.page?_absorb.symm.trans he₃)
  have hharvested : e.Inherits k.tlb.mappings k.tlb.harvest.2.mappings (e.absorb k.tlb.harvest.1) :=
    .absorb fun g _ => congrArg _ Tlb.dirty_harvest
  have hswept : (e.absorb k.tlb.harvest.1).Inherits k.tlb.harvest.2.mappings
      k.tlb.harvest.2.mappings e₂ := .of_cold hcold
  have hshot : e₂.Inherits k.tlb.harvest.2.mappings (k.tlb.harvest.2.takeFrame f).2.mappings
      (e₂.absorb ((k.tlb.harvest.2.takeFrame f).1.map (·.2))) :=
    .absorb fun g _ => congrArg _ ((h.swept hchosen.swept).tlb.bit_takeWhere (b := (·.dirty)))
  have hout : dirtyIn (k.tlb.harvest.2.takeFrame f).2.mappings f = false := by
    refine bitIn_eq_false fun m hm hv => ?_
    obtain ⟨slot, hslot, rfl⟩ := List.mem_map.1 hm
    exact ne_of_takeFrame (k := k.swept r) hslot hv
  have hstate := hchosen.states (q := q) (w := w)
  rw [hchosen.page, he, Option.map_some, Option.map_some, hchosen.state] at hstate
  refine ⟨e, he, (Option.some.inj hstate).symm, ?_⟩
  rw [← hharvested.changed, ← hswept.changed, ← hshot.changed]
  exact (PageEntry.changed_resident hchosen.state).trans (by rw [hout, Bool.or_false])

/-! ## Getting a frame -/

/-- Without a frame for the fault no page has moved. -/
theorem Allocated.unmoved {c : Conduct σ} {error : PagingError}
    (hall : Allocated c pins k (.error error) k') : k.Unmoved k' := by
  cases hall with
  | noVictim _ _ hswept => exact ⟨fun _ _ => swept_states hswept, fun _ => rfl⟩
  | refused hchosen hvac =>
    cases hvac with
    | refused _ hswap =>
      cases hswap with
      | failed _ hslots => exact ⟨fun _ _ => hchosen.states, hslots⟩

/-- The victim's content fits into a slot. -/
theorem Chosen.length_frameBytes {e₁ : PageEntry} {r : Residency}
    (hchosen : Chosen pins k f q w e₁ r) (h : k.Sound pins none) :
    (k.memory.frameBytes f).length = k.swap.pageSize := by
  obtain ⟨e, he, hs, -⟩ := hchosen.changed h
  have hf : f < k.memory.numFrames := h.numFrames ▸ FrameTable.lt_size (h.frames.resident he hs).2
  rw [PhysicalMemory.length_frameBytes h.memory hf, h.swapSize]

theorem Allocated.slotsKept {r : Except PagingError Frame}
    (hall : Allocated (arrayConduct content) pins k r k') (h : k.Sound pins none) :
    SwapSpace.SlotsKept content k.swap k'.swap := by
  cases hall with
  | pooled => exact .refl
  | noVictim => exact .refl
  | taken hchosen hvac =>
    cases hvac with
    | dropped => exact .refl
    | saved _ hswap =>
      have hkept := hswap.slotsKept (hchosen.length_frameBytes h)
      exact hkept
  | refused hchosen hvac =>
    cases hvac with
    | refused _ hswap =>
      have hkept := hswap.slotsKept (hchosen.length_frameBytes h)
      exact hkept

/-- With a frame for the fault no page has moved, or one that was in the frame. -/
theorem Allocated.moved (hall : Allocated (arrayConduct content) pins k (.ok f) k')
    (h : k.Sound pins none) : k.Unmoved k' ∨ ∃ q w e, Ousted content k q w e f k' := by
  cases hall with
  | pooled => exact .inl ⟨fun _ _ => congrArg _ Residency.page?_frames, fun _ => rfl⟩
  | @taken _ q w e₁ r _ hchosen hvac =>
    obtain ⟨e, he, hs, hchanged⟩ := hchosen.changed h
    have hpage : ∀ {state swap},
        ((((k.swept r).shotDown f).withoutPage f q w e₁ state swap).residency.page? q w).map
          (·.state) = some state := by
      intro state swap
      rw [residency_withoutPage, Residency.page?_link_self hchosen.page]
      rfl
    have hothers : ∀ {state swap q' w'}, ¬ (q' = q ∧ w' = w) →
        ((((k.swept r).shotDown f).withoutPage f q w e₁ state swap).residency.page? q' w').map
          (·.state) = (k.residency.page? q' w').map (·.state) := by
      intro state swap q' w' hne
      rw [residency_withoutPage, Residency.page?_link hchosen.page, if_neg hne]
      exact hchosen.states
    refine .inr ⟨q, w, e, ?_⟩
    cases hvac with
    | dropped hneeds =>
      refine ⟨he, hs, fun hyes => ?_, fun _ => hpage, fun _ _ => hothers⟩
      cases hneeds.symm.trans (hchanged.symm.trans hyes)
    | saved hneeds hswap =>
      refine ⟨he, hs, fun _ => ?_, fun hno => ?_, fun _ _ => hothers⟩
      · have hbytes := hswap.slotBytes_self (hchosen.length_frameBytes h)
        refine ⟨_, hswap.owner_eq_none, hpage, ?_, hbytes⟩
        cases hswap with
        | done => exact SlotTable.owner_allocate.trans (if_pos rfl)
      · cases hneeds.symm.trans (hchanged.symm.trans hno)

/-! ## Fetching -/

/-- Content that did not come from swap is still there. -/
theorem Fetched.slotsKept {error : PagingError}
    (hfetch : Fetched (arrayConduct content) p e k (.error error) k') :
    SwapSpace.SlotsKept content k.swap k'.swap :=
  fun s _ ho => ⟨(hfetch.owner_of_error s).trans ho, hfetch.slotBytes⟩

/-! ## The pool -/

theorem nodup_pool : k.residency.frames.pool.toList.Nodup := FramePool.nodup _

/-- Where no page has moved the pool has the frames that it had. -/
theorem Unmoved.pool (hsame : k.Unmoved k') (h : k.Sound pins none) (h' : k'.Sound pins none)
    (hframes : k'.memory.numFrames = k.memory.numFrames) :
    k'.residency.frames.pool.toList.Perm k.residency.frames.pool.toList := by
  refine (List.perm_ext_iff_of_nodup nodup_pool nodup_pool).2 fun f => ?_
  rw [h'.mem_pool_iff_vacant, h.mem_pool_iff_vacant, hframes]
  simp only [hsame.states]

/-- Pages are in the frames that they were in, but for the frame that one of them has lost. -/
theorem Ousted.resident_iff {g : Frame} {q' : Pid} {w' : Vpn}
    (hout : Ousted content k q w e f k') (h : k.Sound pins none) :
    (k'.residency.page? q' w').map (·.state) = some (.resident g) ↔
      (k.residency.page? q' w').map (·.state) = some (.resident g) ∧ g ≠ f := by
  by_cases hqw : q' = q ∧ w' = w
  · obtain ⟨rfl, rfl⟩ := hqw
    rw [hout.page, Option.map_some, hout.state]
    refine iff_of_false (fun hstate => ?_) fun hwas => hwas.2 ?_
    · cases hc : e.changed k.tlb.mappings with
      | true =>
        obtain ⟨s, -, hs, -⟩ := hout.saved hc
        cases hs.symm.trans hstate
      | false => cases (hout.dropped hc).symm.trans hstate
    · exact (PageState.resident.inj (Option.some.inj hwas.1)).symm
  · rw [hout.others q' w' hqw]
    refine (and_iff_left_of_imp ?_).symm
    rintro hstate rfl
    obtain ⟨e', he', hs'⟩ := Option.map_eq_some_iff.1 hstate
    exact hqw (h.frames.unique hout.page hout.state he' hs')

/-- The frame that a page has lost is in the pool, if nobody has got it. -/
theorem Ousted.pool (hout : Ousted content k q w e f k') (h : k.Sound pins none)
    (h' : k'.Sound pins none) (hpins : pins f = 0)
    (hframes : k'.memory.numFrames = k.memory.numFrames) :
    k'.residency.frames.pool.toList.Perm (f :: k.residency.frames.pool.toList) := by
  have hnot := h.frames.notMem_pool hout.page hout.state
  have hf : f < k.memory.numFrames % limit32 :=
    h.usable_eq ▸ h.frames.frame_lt hout.page hout.state
  refine (List.perm_ext_iff_of_nodup nodup_pool (List.nodup_cons.2 ⟨hnot, nodup_pool⟩)).2 fun g => ?_
  rw [List.mem_cons, h'.mem_pool_iff_vacant, h.mem_pool_iff_vacant, hframes]
  by_cases hg : g = f
  · subst hg
    exact iff_of_true ⟨hf, hpins, fun q' w' hstate => ((hout.resident_iff h).1 hstate).2 rfl⟩ (.inl rfl)
  · simp only [ne_eq, hout.resident_iff h, hg, not_false_eq_true, and_true, false_or]

/-! ## What is undone -/

/-- A fault of page `v` of process `pid` has failed and left `k'`. -/
structure Undone [BackingStore σ] (content : σ → Nat → UInt8) (k : Kernel σ) (pid : Pid) (v : Vpn)
    (k' : Kernel σ) : Prop where
  entry : k'.residency.page? pid v = k.residency.page? pid v
  /-- Slots in use keep their owners and their bytes, that of the page among them. -/
  slots : SwapSpace.SlotsKept content k.swap k'.swap
  /-- The page has no slot that it did not have before. -/
  unslotted : ∀ {s}, k'.swap.slots.owner s = some ⟨pid, v⟩ →
    k.swap.slots.owner s = some ⟨pid, v⟩
  /-- No frame is the page's. -/
  unframed : ∀ {f i}, k'.residency.frames.info? f = some i → i.owner = some pid →
    i.mapping.vpn ≠ v
  /-- No slot of the TLB leads to the page. -/
  unmapped : ∀ {slot}, slot ∈ k'.tlb.slots → slot.mapping.valid = true → slot.owner = some pid →
    slot.mapping.vpn ≠ v
  pins : ∀ f, (k'.residency.frames.info? f).map (·.pinCount) =
    (k.residency.frames.info? f).map (·.pinCount)
  memory : k'.memory = k.memory
  /-- No page has moved; or one has, out of a frame that no pin held and that is now in the
      pool. -/
  aftermath :
    (k.Unmoved k' ∧ k'.residency.frames.pool.toList.Perm k.residency.frames.pool.toList) ∨
    ∃ q w e f, ¬ (q = pid ∧ w = v) ∧ Ousted content k q w e f k' ∧
      (k.residency.frames.info? f).map (·.pinCount) = some 0 ∧
      k'.residency.frames.pool.toList.Perm (f :: k.residency.frames.pool.toList)
  /-- Without a frame for the fault, as when the victim could not be written to swap, no page has
      moved, and the pool and the slots in use are as they were. -/
  refused : ∀ {error k₁}, allocateFrame.run.run k.faulting = .ok (.error error, k₁) →
    k.Unmoved k' ∧ k'.residency.frames.pool.toList = k.residency.frames.pool.toList ∧
      k'.swap.slots.inUse = k.swap.slots.inUse

theorem Unmoved.trans (h : k.Unmoved k₁) (h' : k₁.Unmoved k') : k.Unmoved k' :=
  ⟨fun q w => (h'.states q w).trans (h.states q w), fun s => (h'.owners s).trans (h.owners s)⟩

theorem Ousted.trans (hout : Ousted content k q w e f k₁) (hsame : k₁.Unmoved k')
    (hkept : SwapSpace.SlotsKept content k₁.swap k'.swap) : Ousted content k q w e f k' where
  page := hout.page
  state := hout.state
  saved hc := by
    obtain ⟨s, hfree, hs, ho, hbytes⟩ := hout.saved hc
    obtain ⟨ho', hbytes'⟩ := hkept s _ ho
    exact ⟨s, hfree, (hsame.states q w).trans hs, ho', hbytes'.trans hbytes⟩
  dropped hc := (hsame.states q w).trans (hout.dropped hc)
  others q' w' hne := (hsame.states q' w').trans (hout.others q' w' hne)

/-- A page that could not be brought in: what was done for it is complete in itself. -/
theorem PagedIn.kept {error : PagingError}
    (hin : PagedIn (arrayConduct content) pins pid p v e k (.error error) k')
    (h : k.Sound pins none) (he : k.residency.page? pid v = some e)
    (hs : ∀ g, e.state ≠ .resident g) :
    k'.residency.page? pid v = some e ∧ SwapSpace.SlotsKept content k.swap k'.swap ∧
      k'.memory = k.memory ∧
      (k.Unmoved k' ∨ ∃ q w e₁ f, Ousted content k q w e₁ f k' ∧ pins f = 0) := by
  have hk := h.faulting
  cases hin with
  | starved hall =>
    have hdone := hall.undisturbed hk
    have hsame := hall.unmoved
    exact ⟨hdone.elsewhere he hs, hall.slotsKept hk, hdone.memory, .inl ⟨hsame.states, hsame.owners⟩⟩
  | @failed f k₁ error k₂ hall hfetch =>
    obtain ⟨-, hpins, -, -, hmemory, -, helse⟩ := hall.gained hk
    have hkept := (hall.slotsKept hk).trans hfetch.slotsKept
    have howners := hfetch.owner_of_error
    have hback : SwapSpace.SlotsKept content k₁.swap k₂.swap := hfetch.slotsKept
    obtain ⟨swap, sections, rfl, -⟩ := hfetch.rest
    have hsame : k₁.Unmoved (withFree { k₁ with swap, sections } f) :=
      ⟨fun _ _ => congrArg _ Residency.page?_frames, howners⟩
    refine ⟨Residency.page?_frames.trans (helse he hs), hkept, hmemory, ?_⟩
    rcases hall.moved hk with hstill | ⟨q, w, e₁, hout⟩
    · exact .inl ((show k.Unmoved k₁ from ⟨hstill.states, hstill.owners⟩).trans hsame)
    · have hout' : Ousted content k q w e₁ f k₁ :=
        ⟨hout.page, hout.state, hout.saved, hout.dropped, hout.others⟩
      exact .inr ⟨q, w, e₁, f, hout'.trans hsame hback, hpins⟩

section Faults

variable [BackingStore σ]

/-- What a failed fault leaves follows from what it does to pages and slots. -/
theorem Undone.of_sound (h : k.Sound pins none) (h' : k'.Sound pins none)
    (hexact : k'.swap.slots.Exact k'.residency)
    (hnot : ∀ e, k.residency.page? pid v = some e → ∀ g, e.state ≠ .resident g)
    (hentry : k'.residency.page? pid v = k.residency.page? pid v)
    (hslots : SwapSpace.SlotsKept content k.swap k'.swap) (hmemory : k'.memory = k.memory)
    (hmoved : k.Unmoved k' ∨ ∃ q w e f, Ousted content k q w e f k' ∧ pins f = 0)
    (hrefused : (∃ error k₁, allocateFrame.run.run k.faulting = .ok (.error error, k₁)) →
      k.Unmoved k') : k.Undone content pid v k' where
  entry := hentry
  slots := hslots
  unslotted := by
    intro s ho
    have hstate := hexact s pid v ho
    rw [hentry] at hstate
    exact h.slots s pid v hstate
  unframed := by
    rintro f i hi ho rfl
    obtain ⟨e, he, hs, -⟩ := h'.frames.owned hi (by simp) ho
    exact hnot e (hentry.symm.trans he) f hs
  unmapped := by
    rintro slot hslot hv ho rfl
    obtain ⟨e, he, hs, -⟩ := h'.tlb.backs hslot hv ho
    exact hnot e (hentry.symm.trans he) _ hs
  pins f := by rw [h'.pinCount_eq, h.pinCount_eq, hmemory]
  memory := hmemory
  aftermath := by
    have hframes : k'.memory.numFrames = k.memory.numFrames := by rw [hmemory]
    rcases hmoved with hsame | ⟨q, w, e, f, hout, hpins⟩
    · exact .inl ⟨hsame, hsame.pool h h' hframes⟩
    · refine .inr ⟨q, w, e, f, ?_, hout, ?_, hout.pool h h' hpins hframes⟩
      · rintro ⟨rfl, rfl⟩
        exact hnot e hout.page f hout.state
      · rw [(h.frames.resident hout.page hout.state).2, Option.map_some, FrameInfo.holding, hpins]
  refused := by
    intro error k₁ hrun
    have hsame := hrefused ⟨error, k₁, hrun⟩
    have hempty := ((ends_allocateFrame (c := .any σ) Conduct.any_holds h.faulting
      fun _ _ hall => hall).of_run hrun).pool_of_error
    have hpool := hsame.pool h h' (by rw [hmemory])
    rw [show k.residency.frames.pool.toList = [] from hempty] at hpool ⊢
    exact ⟨hsame, hpool.eq_nil, SlotTable.inUse_congr hsame.owners⟩

/-- A fault without a frame ends with the error that there was none. -/
theorem handleMiss_of_refused {error : PagingError}
    (hsize : divisor k.pageSize = .ok k.pageSize)
    (hp : k.residency.process? pid = some p) (hlive : p.exited = false)
    (he : p.table.find? (pageOf k.pageSize vaddr) = some e) (hs : ∀ g, e.state ≠ .resident g)
    (hrun : allocateFrame.run.run k.faulting = .ok (.error error, k₁)) :
    (handleMiss pid vaddr).run.run k = .ok (.error error, k₁) := by
  have hends : Ends (fun _ => False) (handleMiss (σ := σ) pid vaddr).run k fun r k' =>
      r = .error error ∧ k' = k₁ := by
    unfold handleMiss resolve
    simp only [ends_bind, ends_get, ends_lift, hsize, Checked.ends_ok]
    refine ends_liveProcess (fun hdead => ?_) fun p' hp' _ => ?_
    · cases hlive.symm.trans (hdead p hp)
    · cases hp.symm.trans hp'
      have hvalid : ¬ e.isValid = true := by
        unfold PageEntry.isValid PageEntry.frame
        cases hstate : e.state with
        | resident g => exact absurd hstate (hs g)
        | absent => simp
        | swapped s => simp
      dsimp only
      rw [PageTable.get_eq he, ends_ofExcept]
      dsimp only [mapError_ok]
      rw [if_neg hvalid]
      unfold pageIn
      rw [ends_bind, ends_modify]
      dsimp only
      rw [ends_bind]
      exact (ends_of_run hrun).2 ⟨rfl, rfl⟩
  obtain ⟨r, k', hdone, rfl, rfl⟩ := ends_iff_eq_ok.1 hends
  exact hdone

/-- A miss of a live process that cannot be served leaves nothing half done, on a store that is
    an array of bytes of which calls that fail change none. -/
theorem Reachable.failedFault {error : PagingError} (h : k.Reachable)
    (harray : IsArray (fun _ => True) content) (hp : k.residency.process? pid = some p)
    (hlive : p.exited = false) (hrun : (handleMiss pid vaddr).run.run k = .ok (.error error, k')) :
    k.Undone content pid (pageOf k.pageSize vaddr) k' := by
  obtain ⟨pins, hsound, htlb⟩ := h.sound
  have hc : Tolerated (arrayConduct content) (fun _ => True) k := .of_holds harray.holds
  have hserved := (ends_handleMiss hc hsound htlb fun _ _ hserved => hserved).of_run hrun
  have hk' := (hserved.stays hsound).sound
  have hexact : k'.swap.slots.Exact k'.residency := (hserved.course hsound).exact h.exact
  cases hserved with
  | failed hres =>
    cases hres with
    | exited hdead => cases hlive.symm.trans (hdead p hp)
    | outside hp' _ hv =>
      cases hp.symm.trans hp'
      have hnone : k.residency.page? pid (pageOf k.pageSize vaddr) = none :=
        (Residency.page?_of_process hp (hsound.registered hp hlive)).trans hv
      refine .of_sound hsound hk' hexact (by simp [hnone]) rfl .refl rfl (.inl .refl) fun _ => .refl
    | faulted hp' _ he hs hin =>
      cases hp.symm.trans hp'
      have hentry : p.table.find? (pageOf k.pageSize vaddr) = some _ :=
        (Residency.page?_of_process hp (hsound.registered hp hlive)).symm.trans he
      obtain ⟨hpage, hkept, hmemory, hmoved⟩ := hin.kept hsound he hs
      refine .of_sound hsound hk' hexact ?_ (hpage.trans he.symm) hkept hmemory hmoved ?_
      · intro e' he'
        cases he.symm.trans he'
        exact hs
      · rintro ⟨error', k₁, halloc⟩
        have hdiv : divisor k.pageSize = .ok k.pageSize := divisor_eq hsound.memory.pageSize_pos
          (hsound.pageSize_lt_of_handleMiss hrun)
        have hsame := hrun.symm.trans (handleMiss_of_refused hdiv hp hlive hentry hs halloc)
        simp only [Except.ok.injEq, Prod.mk.injEq] at hsame
        obtain ⟨-, rfl⟩ := hsame
        have hall := (ends_allocateFrame hc.store hsound.faulting fun _ _ hall => hall).of_run halloc
        exact ⟨hall.unmoved.states, hall.unmoved.owners⟩

/-- A page in swap cannot be read back: the other page has been evicted for it, and its frame is
    free. -/
theorem Reachable.failedFault_of_unreadable : ∃ (k k' : Kernel MemoryStore) (error : PagingError),
    k.Reachable ∧ (handleMiss 1 0).run.run k = .ok (.error error, k') ∧
      (k'.residency.page? 1 0).map (·.state) = some (.swapped 0) ∧
      (k'.residency.page? 1 1).map (·.state) = some (.swapped 1) ∧
      k'.residency.frames.pool.toList = [0] ∧ k.Undone MemoryStore.content 1 0 k' := by
  have hrun : (boot 4 { physPages := 1, tlbSize := 1, stackPages := 2 }
      ({ failingReads := [0] } : MemoryStore) [] [] >>= fun k =>
        (operate (.request (.spawn []))).run.run k >>= fun r₁ =>
          (operate (.request (.process 1 (.storeByte 0 7)))).run.run r₁.2 >>= fun r₂ =>
            (operate (.request (.process 1 (.storeByte 4 8)))).run.run r₂.2 >>= fun r₃ =>
              (handleMiss 1 0).run.run r₃.2 >>= fun r₄ =>
                .ok ((r₃.2.residency.process? 1).map (·.exited), r₄.1.toOption.isSome,
                  (r₄.2.residency.page? 1 0).map (·.state),
                  (r₄.2.residency.page? 1 1).map (·.state),
                  r₄.2.residency.frames.pool.toList)).toOption =
        some (some false, false, some (.swapped 0), some (.swapped 1), [0]) := by
    decide +kernel
  obtain ⟨k, hboot, hrun⟩ := Checked.exists_of_toOption_bind hrun
  obtain ⟨⟨r₁, k₁⟩, hspawn, hrun⟩ := Checked.exists_of_toOption_bind hrun
  obtain ⟨⟨r₂, k₂⟩, hfirst, hrun⟩ := Checked.exists_of_toOption_bind hrun
  obtain ⟨⟨r₃, k₃⟩, hsecond, hrun⟩ := Checked.exists_of_toOption_bind hrun
  obtain ⟨⟨r₄, k₄⟩, hmiss, hrun⟩ := Checked.exists_of_toOption_bind hrun
  have hall := Option.some.inj hrun
  simp only [Prod.mk.injEq] at hall
  obtain ⟨hlive, herror, hfirstPage, hsecondPage, hpool⟩ := hall
  have hreach : k₃.Reachable := (((Reachable.fresh hboot).step hspawn).step hfirst).step hsecond
  obtain ⟨p, hp, hexit⟩ := Option.map_eq_some_iff.1 hlive
  cases r₄ with
  | ok _ => cases herror
  | error error =>
    have hundone := Reachable.failedFault hreach MemoryStore.isArray hp hexit hmiss
    have hpage : pageOf k₃.pageSize 0 = 0 := Nat.zero_div _
    rw [hpage] at hundone
    exact ⟨k₃, k₄, error, hreach, hmiss, hfirstPage, hsecondPage, hpool, hundone⟩

end Faults

end Kernel

end DemandPaging
