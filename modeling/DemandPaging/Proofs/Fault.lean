/-
  Page faults keep the kernel sound.

  `Fetched` lists where the content of a page may come from, and `PagedIn` how a fault may
  end: without a frame, with the page in its frame, or with the frame given back because the
  content did not come.
-/
import DemandPaging.Kernel.PageFault
import DemandPaging.Proofs.Eviction

namespace DemandPaging.Kernel

variable {σ : Type} {c : Conduct σ} {V : Violation → Prop} {pins : Frame → Nat}
  {k k' k₁ k₂ : Kernel σ} {pid q : Pid} {v w : Vpn} {e e₁ : PageEntry} {f g : Frame} {p : Process}

/-! ## Fetching content -/

/-- The storage, the sections with pages of the right size, and dividing by a page size stop with
    violations in `V` only. -/
structure Tolerated (c : Conduct σ) [BackingStore σ] (V : Violation → Prop) (k : Kernel σ) :
    Prop where
  store : c.Holds V
  loads : ∀ s ∈ k.images, s.pageSize = k.memory.pageSize → s.Loads V
  divides : k.memory.pageSize < limit32 ∨ V .divisionByZero

theorem Tolerated.of_keeps [BackingStore σ] (hc : Tolerated c V k) (hkeeps : k.Keeps k') :
    Tolerated c V k' := by
  refine ⟨hc.store, fun s hs hsize => hc.loads s (hkeeps.images ▸ hs) ?_, ?_⟩
  · rw [hsize, hkeeps.pageSize]
  · rw [hkeeps.pageSize]
    exact hc.divides

/-- When every violation is allowed, nothing is asked of the sections. -/
theorem Tolerated.of_holds [BackingStore σ] (hc : c.Holds fun _ => True) :
    Tolerated c (fun _ => True) k :=
  ⟨hc, fun _ _ _ _ _ => Checked.ends_true fun _ _ => trivial, .inr trivial⟩

/-- When every violation is allowed, nothing is asked of the storage. -/
theorem Tolerated.any [BackingStore σ] : Tolerated (Conduct.any σ) (fun _ => True) k :=
  .of_holds Conduct.any_holds

/-- How fetching the content of a page that is in no frame may end. -/
inductive Fetched (c : Conduct σ) (p : Process) (e : PageEntry) (k : Kernel σ) :
    Except PagingError Bytes → Kernel σ → Prop where
  | swapped {s r swap} (hs : e.state = .swapped s)
    (hswap : SwapSpace.SwappedIn c s k.swap r swap) :
    Fetched c p e k (r.mapError .swap) { k with swap }
  | image {exe j sectionId s r s'} (hs : e.state = .absent)
    (hexe : k.executable p.executable = .ok exe)
    (hposition : exe.position? e.vpn = .ok (some j))
    (hid : p.executable[j]? = some sectionId) (hsection : k.sections[sectionId]? = some s)
    (hload : (Section.loadAt e.vpn k.memory.pageSize).run.run s = .ok (r, s')) :
    Fetched c p e k (r.mapError .image) { k with sections := k.sections.set sectionId s' }
  | zero {exe n} (hs : e.state = .absent) (hexe : k.executable p.executable = .ok exe)
    (hpages : exe.numPages = .ok n) (hstack : n ≤ e.vpn) :
    Fetched c p e k (.ok (Bytes.zeros k.memory.pageSize)) k

/-- The sections of a laid out process are there, and have the pages and flags that it was
    made with. -/
theorem executable_eq {o : Process.Outline} {stackPages : Nat}
    (hlaid : o.Laid k.images k.memory.pageSize stackPages) :
    ∃ exe flags, k.executable o.executable = .ok exe ∧ exe.numPages = .ok flags.length ∧
      o.readOnly = flags ++ List.replicate stackPages false ∧
      (∀ i b, flags[i]? = some b → ∃ j sectionId s, exe.position? i = .ok (some j) ∧
        exe[j]? = some s ∧ o.executable[j]? = some sectionId ∧ k.sections[sectionId]? = some s ∧
        s.readOnly = b ∧ s.pageSize = k.memory.pageSize ∧ s.covers i = .ok true) ∧
      ∀ i, flags.length ≤ i → exe.position? i = .ok none := by
  obtain ⟨exe, flags, hexe, hsize, htiled, hflags, hpages, hro, -⟩ := hlaid
  obtain ⟨exe', hexe', rfl, hall⟩ := mapM_unloaded hexe
  refine ⟨exe', flags, ?_, ?_, hro, fun i b hb => ?_, fun i hi => ?_⟩
  · rw [executable, hexe']
  · exact Executable.countFrom_unloaded.symm.trans hpages
  · obtain ⟨j, s, hpos, hj, hsro, hcovers⟩ := Executable.position?_of_contiguous htiled hflags hb
    rw [Nat.zero_add, Executable.position?_unloaded] at hpos
    rw [Nat.zero_add] at hcovers
    rw [Executable.unloaded, List.getElem?_map] at hj
    obtain ⟨s', hs', rfl⟩ := Option.map_eq_some_iff.1 hj
    obtain ⟨sectionId, hid, hsec⟩ := hall j s' hs'
    have hunit := hsize s'.unloaded (List.mem_map.2 ⟨s', List.mem_of_getElem? hs', rfl⟩)
    exact ⟨j, sectionId, s', hpos, hs', hid, hsec, hsro, hunit, hcovers⟩
  · rw [← Executable.position?_unloaded]
    exact Executable.position?_of_le htiled hflags (by rwa [Nat.zero_add])

/-- What is resident where does not matter for the content. -/
theorem ends_fetch [BackingStore σ] (hc : Tolerated c V k)
    (hswap : k.swap.pageSize = k.memory.pageSize) {stackPages : Nat}
    (hlaid : p.outline.Laid k.images k.memory.pageSize stackPages)
    (hs : ∀ g, e.state ≠ .resident g)
    (hslot : ∀ s, e.state = .swapped s → ∃ o, k.swap.slots.owner s = some o) {r : Residency}
    {Q : Except PagingError Bytes → Kernel σ → Prop}
    (hQ : ∀ result k', Fetched c p e k result k' → Q result { k' with residency := r }) :
    Ends V (fetch p e).run { k with residency := r } Q := by
  obtain ⟨exe, flags, hexe, hpages, -, hfind, -⟩ := executable_eq hlaid
  have hexe' : ({ k with residency := r } : Kernel σ).executable p.executable = .ok exe := hexe
  unfold fetch
  rw [ends_bind, ends_get]
  dsimp only
  cases hstate : e.state with
  | resident g => exact absurd hstate (hs g)
  | swapped s =>
    have howned := Option.isSome_iff_exists.2 (hslot s hstate)
    have hsize : ({ k with residency := r } : Kernel σ).pageSize = k.swap.pageSize := hswap.symm
    dsimp only
    rw [hsize, ends_onSwap]
    exact SwapSpace.ends_swapIn hc.store howned fun result swap hdone =>
      hQ _ _ (.swapped hstate hdone)
  | absent =>
    dsimp only
    rw [hexe']
    simp only [ends_bind, ends_lift, Checked.ends_ok, hpages, ends_ite]
    refine ⟨fun hin => ?_, fun hout => hQ _ _ (.zero hstate hexe hpages (Nat.not_lt.1 hout))⟩
    obtain ⟨j, sectionId, s, hpos, -, hid, hsec, -, hsize, -⟩ :=
      hfind e.vpn flags[e.vpn] (List.getElem?_eq_getElem hin)
    have hid' : p.executable[j]? = some sectionId := hid
    have hmem : s.unloaded ∈ k.images := List.mem_map.2 ⟨s, List.mem_of_getElem? hsec, rfl⟩
    unfold loadImagePage onSection
    simp only [ends_bind, ends_get, ends_lift, hexe', Checked.ends_ok, hpos, Option.bind_some, hid',
      hsec, ends_within]
    have hload : Ends V (Section.loadAt e.vpn s.pageSize).run s fun _ _ => True :=
      hc.loads _ hmem hsize e.vpn s.loads
    rw [hsize] at hload
    refine hload.of_returns ?_
    unfold Ends
    change Checked.Ends _ ((Section.loadAt e.vpn k.memory.pageSize).run.run s) _
    cases hrun : (Section.loadAt e.vpn k.memory.pageSize).run.run s with
    | error v => trivial
    | ok result => exact hQ _ _ (.image hstate hexe hpos hid hsec hrun)

/-- Fetching leaves everything alone but the swap area and the counts of loads. -/
theorem Fetched.rest {result : Except PagingError Bytes} (h : Fetched c p e k result k') :
    ∃ swap sections, k' = { k with swap, sections } ∧ swap.pageSize = k.swap.pageSize ∧
      sections.map Section.unloaded = k.images := by
  cases h with
  | swapped _ hswap => cases hswap <;> exact ⟨_, _, rfl, rfl, rfl⟩
  | zero => exact ⟨_, _, rfl, rfl, rfl⟩
  | @image _ _ sectionId s _ s' _ _ _ _ hsection hload =>
    refine ⟨_, _, rfl, rfl, ?_⟩
    have hkeep : s'.unloaded = s.unloaded := ((Section.ends_loadAt s e.vpn _).of_run hload).1
    obtain ⟨hlt, rfl⟩ := List.getElem?_eq_some_iff.1 hsection
    rw [List.map_set, hkeep, ← List.map_set, List.set_getElem_self]
    rfl

/-- A page that came from swap has given its slot up. -/
theorem Fetched.owner {page : Bytes} (h : Fetched c p e k (.ok page) k') (t : SlotIndex) :
    k'.swap.slots.owner t = if e.state = .swapped t then none else k.swap.slots.owner t := by
  generalize hresult : Except.ok page = result at h
  cases h with
  | @swapped s r swap hs hswap =>
    cases hswap with
    | failed _ => cases hresult
    | done _ hslots =>
      rw [hslots, hs]
      by_cases ht : t = s
      · rw [if_pos ht, if_pos (congrArg _ ht.symm)]
      · rw [if_neg ht, if_neg fun heq => ht (PageState.swapped.inj heq).symm]
  | zero hs => rw [hs, if_neg (by simp)]
  | image hs => rw [hs, if_neg (by simp)]

/-- A page that did not come keeps its slot. -/
theorem Fetched.owner_of_error {error : PagingError} (h : Fetched c p e k (.error error) k')
    (t : SlotIndex) : k'.swap.slots.owner t = k.swap.slots.owner t := by
  generalize hresult : Except.error error = result at h
  cases h with
  | swapped _ hswap =>
    cases hswap with
    | failed _ => rfl
    | done _ _ => cases hresult
  | zero _ => cases hresult
  | image _ => rfl

/-- A page that came has the right length, unless transfers of other lengths are in `V`. -/
theorem Fetched.length [BackingStore σ] {page : Bytes} (h : Fetched c p e k (.ok page) k')
    (hc : c.Holds V) (hswap : k.swap.pageSize = k.memory.pageSize) :
    page.length = k.memory.pageSize ∨ V .frameBufferSize := by
  generalize hresult : Except.ok page = result at h
  cases h with
  | swapped _ hin =>
    cases hin with
    | failed _ => cases hresult
    | done hstore _ =>
      cases hresult
      rw [← hswap]
      exact hc.length hstore
  | zero _ =>
    cases hresult
    exact .inl (Bytes.length_zeros _)
  | @image _ _ _ s r s' _ _ _ _ _ hload =>
    cases r with
    | error _ => cases hresult
    | ok page =>
      cases hresult
      exact .inl (((Section.ends_loadAt s e.vpn _).of_run hload).2 page rfl)

/-- Content of the right length goes into the frame. -/
theorem ends_fill [BackingStore σ] (hc : Tolerated c V k) (hmem : k.memory.Formed)
    (hf : f < k.memory.numFrames) (hswap : k.swap.pageSize = k.memory.pageSize)
    {stackPages : Nat} (hlaid : p.outline.Laid k.images k.memory.pageSize stackPages)
    (hs : ∀ g, e.state ≠ .resident g)
    (hslot : ∀ s, e.state = .swapped s → ∃ o, k.swap.slots.owner s = some o) {r : Residency}
    {Q : Except PagingError Unit → Kernel σ → Prop}
    (hok : ∀ page k', Fetched c p e k (.ok page) k' → page.length = k.memory.pageSize →
      Q (.ok ()) { k' with
        memory := k.memory.patch (f * k.memory.pageSize) page, residency := r })
    (herror : ∀ error k', Fetched c p e k (.error error) k' →
      Q (.error error) { k' with residency := r }) :
    Ends V (fill p e f).run { k with residency := r } Q := by
  unfold fill
  rw [ends_bind]
  refine ends_fetch hc hswap hlaid hs hslot fun result k' hfetch => ?_
  cases result with
  | error error => exact herror error k' hfetch
  | ok page =>
    have hmemory : k'.memory = k.memory := by
      obtain ⟨_, _, rfl, -⟩ := hfetch.rest
      rfl
    by_cases hlen : page.length = k.memory.pageSize
    · refine (ends_writing ?_).2 (hok page k' hfetch hlen)
      change (k'.memory.writeFrame f page).run = _
      rw [hmemory]
      exact PhysicalMemory.writeFrame_eq hmem hf hlen
    · have hV : V .frameBufferSize := (hfetch.length hc.store hswap).resolve_left hlen
      have hstop : (k'.memory.writeFrame f page).run = .error .frameBufferSize := by
        rw [hmemory, PhysicalMemory.writeFrame, Checked.require, decide_eq_false hlen]
        rfl
      unfold writing reading
      simp only [ends_bind, ends_get, ends_ofAttempt, hstop]
      exact hV

/-! ## Bringing pages in -/

/-- The kernel with one more page fault. -/
def faulting (k : Kernel σ) : Kernel σ := { k with pageFaults := k.pageFaults + 1 }

/-- The kernel with the content of a page in frame `f`, and the page there. -/
def withPage (k : Kernel σ) (f : Frame) (pid : Pid) (v : Vpn) (e : PageEntry) (page : Bytes) :
    Kernel σ :=
  { k with
    memory := k.memory.patch (f * k.memory.pageSize) page
    residency := k.residency.link pid v (e.loaded f) f (.holding pid (e.loaded f) 0) }

/-- The kernel with frame `f` back in the pool. -/
def withFree (k : Kernel σ) (f : Frame) : Kernel σ :=
  { k with
    residency := { k.residency with
      frames := { k.residency.frames.put f {} with pool := k.residency.frames.pool.push f } } }

/-- How bringing page `v` of process `pid` in may end. -/
inductive PagedIn (c : Conduct σ) (pins : Frame → Nat) (pid : Pid) (p : Process) (v : Vpn)
    (e : PageEntry) (k : Kernel σ) : Except PagingError Mapping → Kernel σ → Prop where
  | starved {error k'} (hall : Allocated c pins k.faulting (.error error) k') :
    PagedIn c pins pid p v e k (.error error) k'
  | loaded {f k₁ page k₂} (hall : Allocated c pins k.faulting (.ok f) k₁)
    (hfetch : Fetched c p e k₁ (.ok page) k₂) (hlen : page.length = k₂.memory.pageSize) :
    PagedIn c pins pid p v e k (.ok (e.loaded f).mapping) (k₂.withPage f pid v e page)
  | failed {f k₁ error k₂} (hall : Allocated c pins k.faulting (.ok f) k₁)
    (hfetch : Fetched c p e k₁ (.error error) k₂) :
    PagedIn c pins pid p v e k (.error error) (k₂.withFree f)

/-- The page in its frame: the slot it may have come from is free again. -/
theorem Sound.withPage {page : Bytes} (h : k.Sound pins (some f)) (hpins : pins f = 0)
    (he : k.residency.page? pid v = some e) (hs : ∀ g, e.state ≠ .resident g)
    (hfetch : Fetched c p e k (.ok page) k') (hlen : page.length = k.memory.pageSize) :
    (k'.withPage f pid v e page).Sound pins none := by
  obtain ⟨i, hi⟩ := h.frames.atHand.known
  have howner := hfetch.owner
  obtain ⟨swap, sections, rfl, hsize, himages⟩ := hfetch.rest
  have hf : f < k.memory.numFrames := h.numFrames ▸ FrameTable.lt_size hi
  have hclean : e.readOnly = true → false = false := fun _ => rfl
  have hr : (k.residency.link pid v (e.loaded f) f (.holding pid (e.loaded f) (pins f))).Coherent
      pins none := h.frames.load he hs rfl rfl rfl hclean
  have hpage : ∀ q w, (k.residency.link pid v (e.loaded f) f (.holding pid (e.loaded f) 0)).page? q w =
      if q = pid ∧ w = v then some (e.loaded f) else k.residency.page? q w :=
    fun q w => Residency.page?_link he
  have houtline : ∀ q, (k.residency.link pid v (e.loaded f) f (.holding pid (e.loaded f) 0)).outline? q =
      k.residency.outline? q := fun q => Residency.outline?_link he rfl
  rw [hpins] at hr
  refine {
    frames := hr, tlb := h.tlb.mono ?_, slots := fun t q w hstate => ?_
    memory := h.memory.patch (hlen ▸ PhysicalMemory.frame_le hf)
    numFrames := FrameTable.size_put.trans h.numFrames, swapSize := hsize.trans h.swapSize
    physPages := h.physPages, divisible := h.divisible
    laid := ?_ }
  · rintro slot q - - - ⟨e₁, he₁, hs₁, hro⟩
    refine ⟨e₁, (hpage q _).trans ?_, hs₁, hro⟩
    rw [if_neg, he₁]
    rintro ⟨rfl, rfl⟩
    cases he.symm.trans he₁
    exact hs _ hs₁
  · refine (howner t).trans ?_
    have hst : (if q = pid ∧ w = v then some (e.loaded f) else k.residency.page? q w).map (·.state) =
        some (.swapped t) := (congrArg (Option.map _) (hpage q w)).symm.trans hstate
    split at hst
    · cases hst
    · next hne =>
      have hold := h.slots t q w hst
      refine (if_neg fun hmine => hne ?_).trans hold
      -- the slot of the page is nobody else's
      have hown := h.slots t pid v (by rw [he, Option.map_some, hmine])
      cases hold.symm.trans hown
      exact ⟨rfl, rfl⟩
  · intro q o ho
    have hlaid := h.laid ((houtline q).symm.trans ho)
    rwa [← himages] at hlaid

/-- The frame back in the pool: nothing has come of the fault. -/
theorem Sound.withFree {error : PagingError} (h : k.Sound pins (some f)) (hpins : pins f = 0)
    (hfetch : Fetched c p e k (.error error) k') : (k'.withFree f).Sound pins none := by
  have howner := hfetch.owner_of_error
  obtain ⟨swap, sections, rfl, hsize, himages⟩ := hfetch.rest
  have hr := h.frames.giveBack hpins
  refine {
    frames := hr, tlb := h.tlb.mono ?_, slots := fun t q w hstate => ?_, memory := h.memory
    numFrames := FrameTable.size_put.trans h.numFrames, swapSize := hsize.trans h.swapSize
    physPages := h.physPages, divisible := h.divisible
    laid := ?_ }
  · rintro slot q - - - ⟨e₁, he₁, hrest⟩
    exact ⟨e₁, Residency.page?_frames.trans he₁, hrest⟩
  · refine (howner t).trans (h.slots t q w ?_)
    exact (congrArg (Option.map _) Residency.page?_frames).symm.trans hstate
  · intro q o ho
    have hlaid := h.laid (Residency.outline?_frames.symm.trans ho)
    rwa [← himages] at hlaid

theorem Sound.faulting (h : k.Sound pins none) : k.faulting.Sound pins none :=
  ⟨h.frames, h.tlb, h.slots, h.memory, h.numFrames, h.swapSize, h.physPages, h.divisible, h.laid⟩

theorem keeps_faulting : k.Keeps k.faulting := ⟨rfl, rfl, rfl, rfl, fun _ => rfl⟩

/-- A fault of a page that is in no frame. -/
theorem ends_pageIn [BackingStore σ] (hc : Tolerated c V k) (h : k.Sound pins none)
    (hp : k.residency.outline? pid = some p.outline) (he : k.residency.page? pid v = some e)
    (hs : ∀ g, e.state ≠ .resident g) {Q : Except PagingError Mapping → Kernel σ → Prop}
    (hQ : ∀ r k', PagedIn c pins pid p v e k r k' → Q r k') :
    Ends V (pageIn pid p e).run k Q := by
  unfold pageIn
  rw [ends_bind, ends_modify]
  dsimp only
  rw [ends_bind]
  refine ends_allocateFrame hc.store h.faulting fun result k₁ hall => ?_
  cases result with
  | error error => exact hQ _ _ (.starved hall)
  | ok f =>
    obtain ⟨h₁, hpins, hblank, hkeeps, hmem, hfaults, helse⟩ := hall.gained h.faulting
    have he₁ : k₁.residency.page? pid v = some e := helse he hs
    have hc₁ : Tolerated c V k₁ := hc.of_keeps (keeps_faulting.trans hkeeps)
    have hlaid : p.outline.Laid k₁.images k₁.memory.pageSize k₁.config.stackPages :=
      h₁.laid ((hkeeps.outline pid).trans hp)
    have hf : f < k₁.memory.numFrames := h₁.numFrames ▸ FrameTable.lt_size hblank
    have hvpn : e.vpn = v := h.frames.numbered he
    -- the frame is owned and pinned while the content is fetched
    obtain ⟨hassign, hpin⟩ := FrameTable.claim_eq hblank
    refine ends_bind.2 ((ends_onFrames hassign).2 ?_)
    refine ends_bind.2 ((ends_onFrames hpin).2 ?_)
    refine ends_bind.2 (ends_observe.2 ?_)
    refine ends_fill hc₁ h₁.memory hf h₁.swapSize hlaid hs (fun _ => h₁.slot_owned he₁)
      (fun page k₂ hfetch hlen => ?_) (fun error k₂ hfetch => ?_)
    · obtain ⟨hrecord, hunpin⟩ := FrameTable.confirm_eq hblank
      obtain ⟨swap, sections, rfl, -⟩ := hfetch.rest
      have hq := hQ _ _ (.loaded hall hfetch hlen)
      refine ends_bind.2 (ends_change.2 ?_)
      dsimp only
      rw [show (e.loaded f).vpn = v from hvpn, Residency.setEntry_frames]
      refine ends_bind.2 ((ends_onFrames hrecord).2 ?_)
      exact ends_bind.2 ((ends_onFrames hunpin).2 hq)
    · obtain ⟨hrelease, hunpin, hgive⟩ := FrameTable.withdraw_eq hblank h₁.frames.atHand.notMem
      have hrest : k₂.residency = k₁.residency := by
        obtain ⟨_, _, rfl, -⟩ := hfetch.rest
        rfl
      have hq := hQ _ _ (.failed hall hfetch)
      rw [withFree, hrest] at hq
      refine ends_bind.2 ((ends_onFrames hrelease).2 ?_)
      refine ends_bind.2 ((ends_onFrames hunpin).2 ?_)
      exact ends_bind.2 ((ends_onFrames hgive).2 hq)

/-! ## What a fault leaves behind -/

/-- The kernel stays sound, and nobody is made or ended. -/
structure Stays (pins : Frame → Nat) (k k' : Kernel σ) : Prop where
  sound : k'.Sound pins none
  keeps : k.Keeps k'

theorem Stays.refl (h : k.Sound pins none) : Stays pins k k := ⟨h, .refl⟩

theorem Stays.trans (h : Stays pins k k₁) (h' : Stays pins k₁ k') : Stays pins k k' :=
  ⟨h'.sound, h.keeps.trans h'.keeps⟩

/-- Page `v` of process `pid` is in a frame, and `m` is its mapping. -/
structure Ready (pins : Frame → Nat) (pid : Pid) (v : Vpn) (m : Mapping) (k k' : Kernel σ) : Prop
    extends Stays pins k k' where
  page : ∃ e f, k'.residency.page? pid v = some e ∧ e.state = .resident f ∧ m = e.mapping

theorem PagedIn.ready {m : Mapping} (h : PagedIn c pins pid p v e k (.ok m) k')
    (hk : k.Sound pins none) (he : k.residency.page? pid v = some e)
    (hs : ∀ g, e.state ≠ .resident g) : Ready pins pid v m k k' := by
  cases h with
  | @loaded f k₁ page k₂ hall hfetch hlen =>
    obtain ⟨h₁, hpins, -, hkeeps, hmem, -, helse⟩ := hall.gained hk.faulting
    have he₁ : k₁.residency.page? pid v = some e := helse he hs
    have hrest := hfetch.rest
    have hsound : (k₂.withPage f pid v e page).Sound pins none := by
      refine h₁.withPage hpins he₁ hs hfetch (hlen.trans ?_)
      obtain ⟨_, _, rfl, -⟩ := hrest
      rfl
    obtain ⟨swap, sections, rfl, -, himages⟩ := hrest
    refine ⟨⟨hsound, keeps_faulting.trans (hkeeps.trans ?_)⟩, e.loaded f, f, ?_, rfl, rfl⟩
    · exact ⟨rfl, himages, rfl, rfl, fun _ => Residency.outline?_link he₁ rfl⟩
    · exact Residency.page?_link_self he₁

theorem PagedIn.stays {error : PagingError} (h : PagedIn c pins pid p v e k (.error error) k')
    (hk : k.Sound pins none) : Stays pins k k' := by
  cases h with
  | starved hall =>
    have hdone := hall.undisturbed hk.faulting
    exact ⟨hdone.sound, keeps_faulting.trans hdone.keeps⟩
  | failed hall hfetch =>
    obtain ⟨h₁, hpins, -, hkeeps, -⟩ := hall.gained hk.faulting
    have hsound := h₁.withFree hpins hfetch
    obtain ⟨swap, sections, rfl, -, himages⟩ := hfetch.rest
    refine ⟨hsound, keeps_faulting.trans (hkeeps.trans ?_)⟩
    exact ⟨rfl, himages, rfl, rfl, fun _ => Residency.outline?_frames⟩

/-! ## Resolving -/

/-- How finding a frame for page `v` of process `pid` may end. -/
inductive Resolved (c : Conduct σ) (pins : Frame → Nat) (pid : Pid) (v : Vpn) (k : Kernel σ) :
    Except PagingError Mapping → Kernel σ → Prop where
  | exited (hdead : ∀ p, k.residency.process? pid = some p → p.exited = true) :
    Resolved c pins pid v k (.error (.processExited pid)) k
  | outside {p : Process} (hp : k.residency.process? pid = some p) (hlive : p.exited = false)
    (hv : p.table.find? v = none) : Resolved c pins pid v k (.error (.addressOutOfRange v)) k
  | there {e : PageEntry} {f : Frame} (he : k.residency.page? pid v = some e)
    (hs : e.state = .resident f) :
    Resolved c pins pid v k (.ok e.mapping) k
  | faulted {p : Process} {e : PageEntry} {r k'} (hp : k.residency.process? pid = some p)
    (hlive : p.exited = false) (he : k.residency.page? pid v = some e) (hs : ∀ g, e.state ≠ .resident g)
    (hin : PagedIn c pins pid p v e k r k') : Resolved c pins pid v k r k'

theorem ends_liveProcess {Q : Except PagingError Process → Kernel σ → Prop}
    (hdead : (∀ p, k.residency.process? pid = some p → p.exited = true) →
      Q (.error (.processExited pid)) k)
    (hlive : ∀ p, k.residency.process? pid = some p → p.exited = false → Q (.ok p) k) :
    Ends V (liveProcess pid).run k Q := by
  unfold liveProcess process
  rw [ends_bind, ends_bind, ends_get]
  dsimp only
  cases hp : k.residency.process? pid with
  | none => exact hdead (by simp [hp])
  | some p =>
    cases hexit : p.exited with
    | false =>
      simp only [ends_pure, ends_bind, ends_ite, hexit]
      exact ⟨(by simp), fun _ => hlive p hp hexit⟩
    | true =>
      simp only [ends_pure, ends_bind, ends_ite, ends_throw, hexit]
      refine ⟨fun _ => hdead fun p' hp' => ?_, fun hne => absurd trivial hne⟩
      cases hp.symm.trans hp'
      exact hexit

/-- A process that has not exited is registered. -/
theorem Sound.registered (h : k.Sound pins none) (hp : k.residency.process? pid = some p)
    (hlive : p.exited = false) : p.registered = true := by
  rw [h.registered_eq hp, hlive]
  rfl

theorem ends_resolve [BackingStore σ] (hc : Tolerated c V k) (h : k.Sound pins none)
    {Q : Except PagingError Mapping → Kernel σ → Prop}
    (hQ : ∀ r k', Resolved c pins pid v k r k' → Q r k') : Ends V (resolve pid v).run k Q := by
  unfold resolve
  rw [ends_bind]
  refine ends_liveProcess (fun hdead => hQ _ _ (.exited hdead)) fun p hp hlive => ?_
  have hreg := h.registered hp hlive
  have hpage := Residency.page?_of_process (v := v) hp hreg
  have houtline := Residency.outline?_of_process hp
  dsimp only
  rw [ends_bind, ends_ofExcept]
  cases hv : p.table.find? v with
  | none =>
    rw [PageTable.get_eq_of_none hv]
    exact hQ _ _ (.outside hp hlive hv)
  | some e =>
    have he : k.residency.page? pid v = some e := hpage.trans hv
    rw [PageTable.get_eq hv]
    dsimp only [mapError_ok]
    cases hs : e.state with
    | resident f =>
      have hvalid : e.isValid = true := by rw [PageEntry.isValid, PageEntry.frame, hs]; rfl
      rw [if_pos hvalid]
      exact hQ _ _ (.there he hs)
    | absent =>
      have hvalid : ¬ e.isValid = true := by rw [PageEntry.isValid, PageEntry.frame, hs]; simp
      rw [if_neg hvalid]
      have hnot : ∀ g, e.state ≠ .resident g := by simp [hs]
      exact ends_pageIn hc h houtline he hnot fun r k' hin => hQ _ _ (.faulted hp hlive he hnot hin)
    | swapped s =>
      have hvalid : ¬ e.isValid = true := by rw [PageEntry.isValid, PageEntry.frame, hs]; simp
      rw [if_neg hvalid]
      have hnot : ∀ g, e.state ≠ .resident g := by simp [hs]
      exact ends_pageIn hc h houtline he hnot fun r k' hin => hQ _ _ (.faulted hp hlive he hnot hin)

theorem Resolved.ready {m : Mapping} (h : Resolved c pins pid v k (.ok m) k')
    (hk : k.Sound pins none) : Ready pins pid v m k k' := by
  cases h with
  | there he hs => exact ⟨.refl hk, _, _, he, hs, rfl⟩
  | faulted _ _ he hs hin => exact hin.ready hk he hs

theorem Resolved.stays {error : PagingError} (h : Resolved c pins pid v k (.error error) k')
    (hk : k.Sound pins none) : Stays pins k k' := by
  cases h with
  | exited _ => exact .refl hk
  | outside _ _ _ => exact .refl hk
  | faulted _ _ _ _ hin => exact hin.stays hk

end DemandPaging.Kernel
