/-
  Eviction from end to end.

  A bit of a page may be on in its entry or in its copy in the TLB; `merged?` takes both
  together, and the victim is chosen by that (`choice`).  Writing copies back moves bits and
  makes none, so that every stage of an eviction but the last is followed by how it changes
  `merged?` and what the frame table has besides bits (`holder`).
-/
import DemandPaging.Proofs.ArrayStore
import DemandPaging.Proofs.Reachable
import DemandPaging.Proofs.SecondChance
import DemandPaging.Proofs.TlbBits

namespace DemandPaging

/-! ## Records without their bits -/

/-- What the record of a frame says about who has the frame. -/
def FrameInfo.holder (i : FrameInfo) : Option Pid × Vpn × Nat := (i.owner, i.mapping.vpn, i.pinCount)

@[simp] theorem FrameInfo.holder_absorb {i : FrameInfo} {copies : List Mapping} :
    (i.absorb copies).holder = i.holder := by
  simp [holder, absorb]

theorem FrameTable.CooledBy.holder {fs : List Frame} {table table' : FrameTable}
    (h : table.CooledBy fs table') (g : Frame) :
    (table'.info? g).map FrameInfo.holder = (table.info? g).map FrameInfo.holder := by
  rw [h.info, Option.map_map]
  refine congrArg (Option.map · (table.info? g)) (funext fun i => ?_)
  simp only [Function.comp]
  split <;> rfl

theorem FrameTable.evictable_congr {table table' : FrameTable}
    (h : ∀ g, (table'.info? g).map FrameInfo.holder = (table.info? g).map FrameInfo.holder) :
    table'.evictable = table.evictable := by
  have hread : ∀ (t : FrameTable) g, t.evictable g =
      ((t.info? g).map FrameInfo.holder).any fun x => x.1.isSome && !decide (0 < x.2.2) := by
    intro t g
    rw [evictable, Option.any_map]
    rfl
  funext g
  rw [hread, hread, h g]

/-- What the hand may take does not depend on bits. -/
theorem FrameTable.candidates_congr {table table' : FrameTable} {hand : Nat}
    (h : ∀ g, (table'.info? g).map FrameInfo.holder = (table.info? g).map FrameInfo.holder)
    (hsize : table'.size = table.size) : table'.candidates hand = table.candidates hand := by
  rw [candidates, hsize, evictable_congr h, candidates]

/-! ## Entries without their `used` bits -/

theorem PageEntry.absorb_congr {copies more : List Mapping} {e : PageEntry}
    (hused : ∀ f, usedIn copies f = usedIn more f)
    (hdirty : ∀ f, dirtyIn copies f = dirtyIn more f) : e.absorb copies = e.absorb more := by
  unfold absorb
  split
  · next f _ => rw [hused, hdirty]
  · rfl

/-- The `used` bit of an entry adds nothing to its other bits. -/
theorem PageEntry.cold_absorb {copies : List Mapping} {e e' : PageEntry} (h : e'.cold = e.cold) :
    (e'.absorb copies).cold = (e.absorb copies).cold := by
  have hstate : e'.cold.state = e.cold.state := congrArg PageEntry.state h
  change e'.state = e.state at hstate
  cases hs : e.state with
  | resident f =>
    rw [absorb_resident hs, absorb_resident (hstate.trans hs)]
    simp only [cold, mk.injEq] at h ⊢
    simp [h]
  | absent =>
    rwa [absorb_of_not_resident (by simp [hstate, hs]), absorb_of_not_resident (by simp [hs])]
  | swapped s =>
    rwa [absorb_of_not_resident (by simp [hstate, hs]), absorb_of_not_resident (by simp [hs])]

theorem Residency.frames_clearSpared {r : Residency} {spared : Spared} :
    (clearSpared r spared).frames = r.frames := by
  unfold clearSpared
  split
  · rfl
  · exact frames_updateProcess

theorem Residency.frames_foldl_clearSpared {r : Residency} {spared : List Spared} :
    (spared.foldl clearSpared r).frames = r.frames := by
  induction spared generalizing r with
  | nil => rfl
  | cons s rest ih => rw [List.foldl_cons, ih, frames_clearSpared]

/-- The hand may take only frames in use. -/
theorem Residency.Coherent.inReach {pins : Frame → Nat} {r : Residency} (h : r.Coherent pins none) :
    r.frames.InReach := by
  refine .inr fun f hmay => ?_
  obtain ⟨i, hi, howned, -⟩ := FrameTable.evictable_iff.1 hmay
  obtain ⟨pid, howner⟩ := Option.isSome_iff_exists.1 howned
  exact (h.atFrame (by simp)).lt_usable hi howner

/-- The choice of a victim is a sweep of the frame table. -/
theorem Residency.selectVictim_cases {r r' : Residency} {victim : Option (Frame × Pid)}
    (hhand : r.hand < r.frames.size) (hreach : r.frames.InReach)
    (h : r.selectVictim = .ok (victim, r')) :
    (victim = none ∧ r.frames.candidates r.hand = [] ∧ r'.frames = r.frames) ∨
      ∃ f pid, victim = some (f, pid) ∧
        ((r.frames.candidates r.hand).find? fun g => !r.frames.isUsed g).or
          (r.frames.candidates r.hand).head? = some f ∧
        r.frames.CooledBy ((r.frames.candidates r.hand).takeWhile r.frames.isUsed) r'.frames := by
  unfold selectVictim at h
  obtain ⟨hcands, hrun⟩ | ⟨f, sweep, hchoice, htakes, hrun⟩ :=
    @FrameTable.selectVictim_cases r.frames r.hand (fun _ => hhand) hreach
  · rw [hrun] at h
    cases h
    exact .inl ⟨rfl, hcands, rfl⟩
  · rw [FrameTable.selectVictim, hrun (Nat.le_refl _)] at h
    cases h
    obtain ⟨i, pid, -, -, hvictim⟩ := htakes.victim
    refine .inr ⟨f, pid, hvictim, hchoice, ?_⟩
    rw [frames_foldl_clearSpared]
    exact htakes.frames

namespace Kernel

variable {σ : Type} {V : Violation → Prop} {pins : Frame → Nat} {loose : Option Frame}
  {k k' k₁ : Kernel σ} {pid q : Pid} {v w : Vpn} {e : PageEntry} {f g : Frame} {r : Residency}
  {content : σ → Nat → UInt8}

/-! ## Pages with the bits of their copies -/

/-- The entry of a page with the bits of its valid copies in the TLB. -/
def merged? (k : Kernel σ) (pid : Pid) (v : Vpn) : Option PageEntry :=
  (k.residency.page? pid v).map (·.absorb k.tlb.mappings)

/-- The page that the frame table has for a frame. -/
def held? (k : Kernel σ) (f : Frame) : Option (Pid × Vpn) :=
  (k.residency.frames.info? f).bind fun i => i.owner.map (·, i.mapping.vpn)

/-- The page in the frame has its `used` bit on, in its entry or in a copy. -/
def isUsed (k : Kernel σ) (f : Frame) : Bool :=
  ((k.held? f).bind fun page => k.merged? page.1 page.2).any (·.used)

/-- The frames that the clock may take, from the one on that its hand points to. -/
def candidates (k : Kernel σ) : List Frame := k.residency.frames.candidates k.residency.hand

/-- The frame that the clock takes: the first one that is not used, or just the first one. -/
def choice (k : Kernel σ) : Option Frame :=
  (k.candidates.find? fun f => !k.isUsed f).or k.candidates.head?

/-- The frames that the hand spares before it has found one to take. -/
def passed (k : Kernel σ) : List Frame := k.candidates.takeWhile k.isUsed

theorem merged?_eq_some (he : k.residency.page? pid v = some e) (hs : e.state = .resident f) :
    k.merged? pid v = some { e with
      used := e.used || usedIn k.tlb.mappings f, dirty := e.dirty || dirtyIn k.tlb.mappings f } := by
  rw [merged?, he, Option.map_some, PageEntry.absorb_resident hs]

theorem held?_congr
    (h : (k'.residency.frames.info? f).map FrameInfo.holder =
      (k.residency.frames.info? f).map FrameInfo.holder) : k'.held? f = k.held? f := by
  have hread : ∀ k : Kernel σ, k.held? f =
      ((k.residency.frames.info? f).map FrameInfo.holder).bind fun x => x.1.map (·, x.2.1) := by
    intro k
    rw [Option.bind_map]
    rfl
  rw [hread, hread, h]

theorem isUsed_congr (hheld : k'.held? f = k.held? f)
    (hentry : ∀ q w, k.held? f = some (q, w) → k'.merged? q w = k.merged? q w) :
    k'.isUsed f = k.isUsed f := by
  unfold isUsed
  rw [hheld]
  cases hpage : k.held? f with
  | none => rfl
  | some page =>
    rw [Option.bind_some, Option.bind_some, hentry _ _ hpage]

/-- When no copy has its `used` bit on, the records of frames tell. -/
theorem isUsed_eq (h : k.residency.Coherent pins none)
    (hquiet : ∀ f, usedIn k.tlb.mappings f = false) : k.isUsed = k.residency.frames.isUsed := by
  funext f
  unfold isUsed held?
  cases hi : k.residency.frames.info? f with
  | none => rw [FrameTable.isUsed, hi]; rfl
  | some i =>
    rw [FrameTable.isUsed_eq hi, Option.bind_some]
    cases howner : i.owner with
    | none =>
      rw [(h.idle hi (by simp) howner).1]
      rfl
    | some pid =>
      obtain ⟨e, he, hs, rfl⟩ := h.owned hi (by simp) howner
      simp only [Option.map_some, Option.bind_some, merged?, he, Option.any_some,
        PageEntry.absorb_resident hs, hquiet, Bool.or_false]
      rfl

/-! ## Copies that are written back -/

/-- A harvest moves bits from the TLB to the entries. -/
theorem merged?_harvested : k.harvested.merged? q w = k.merged? q w := by
  have hpage : k.harvested.residency.page? q w = _ := Residency.page?_absorb
  rw [merged?, hpage, Option.map_map, merged?]
  refine congrArg (Option.map · (k.residency.page? q w)) (funext fun e => ?_)
  rw [Function.comp, PageEntry.absorb_absorb]
  exact PageEntry.absorb_congr (fun _ => Tlb.used_harvest) fun _ => Tlb.dirty_harvest

/-- So does a shoot-down. -/
theorem Sound.merged?_shotDown (h : k.Sound pins none) :
    (k.shotDown f).merged? q w = k.merged? q w := by
  have hpage : (k.shotDown f).residency.page? q w = _ := Residency.page?_absorb
  rw [merged?, hpage, Option.map_map, merged?]
  refine congrArg (Option.map · (k.residency.page? q w)) (funext fun e => ?_)
  rw [Function.comp, PageEntry.absorb_absorb]
  exact PageEntry.absorb_congr (fun _ => h.tlb.bit_takeWhere) fun _ => h.tlb.bit_takeWhere

theorem holder_harvested : (k.harvested.residency.frames.info? g).map FrameInfo.holder =
    (k.residency.frames.info? g).map FrameInfo.holder := by
  have hinfo : k.harvested.residency.frames.info? g = _ := Residency.info?_map
  rw [hinfo, Option.map_map]
  exact congrArg (Option.map · _) (funext fun i => FrameInfo.holder_absorb)

theorem holder_shotDown : ((k.shotDown f).residency.frames.info? g).map FrameInfo.holder =
    (k.residency.frames.info? g).map FrameInfo.holder := by
  have hinfo : (k.shotDown f).residency.frames.info? g = _ := Residency.info?_map
  rw [hinfo, Option.map_map]
  exact congrArg (Option.map · _) (funext fun i => FrameInfo.holder_absorb)

theorem isUsed_harvested : k.harvested.isUsed = k.isUsed :=
  funext fun _ => isUsed_congr (held?_congr holder_harvested) fun _ _ _ => merged?_harvested

/-- A sweep leaves no page but with its `used` bit off. -/
theorem merged?_swept {victim : Option (Frame × Pid)}
    (hswept : Residency.SweptTo pins k.harvested.residency victim r) :
    ((k.swept r).merged? q w).map PageEntry.cold = (k.merged? q w).map PageEntry.cold := by
  have hpage : ((k.swept r).residency.page? q w).map PageEntry.cold =
    (k.harvested.residency.page? q w).map PageEntry.cold := hswept.cools.page q w
  rw [← merged?_harvested (k := k), merged?, merged?]
  change (((k.swept r).residency.page? q w).map (·.absorb k.harvested.tlb.mappings)).map _ = _
  cases hr : (k.swept r).residency.page? q w with
  | none =>
    rw [hr] at hpage
    rw [Option.map_eq_none_iff.1 hpage.symm]
  | some e' =>
    rw [hr] at hpage
    obtain ⟨e, he, heq⟩ := Option.map_eq_some_iff.1 hpage.symm
    rw [he, Option.map_some, Option.map_some, Option.map_some, Option.map_some]
    exact congrArg some (PageEntry.cold_absorb heq.symm)

/-! ## The choice -/

/-- No copy has its `used` bit on after a harvest. -/
theorem harvested_quiet : usedIn k.harvested.tlb.mappings f = false := Tlb.usedIn_harvest

theorem Sound.isUsed_records (h : k.Sound pins none) :
    k.harvested.residency.frames.isUsed = k.isUsed := by
  rw [← isUsed_harvested]
  exact (isUsed_eq h.harvested.frames fun _ => harvested_quiet).symm

theorem candidates_harvested :
    k.harvested.residency.frames.candidates k.harvested.residency.hand = k.candidates :=
  FrameTable.candidates_congr (fun _ => holder_harvested) Residency.size_map

/-- The sweep after a harvest goes by the bits of entries and copies together.  Its victim is the
    choice of the clock, and the frames that it has passed lose their bits. -/
theorem Sound.selectVictim_cases {victim : Option (Frame × Pid)} (h : k.Sound pins none)
    (hselect : k.harvested.residency.selectVictim = .ok (victim, r)) :
    (victim = none ∧ k.choice = none ∧ r.frames = k.harvested.residency.frames) ∨
      ∃ f pid, victim = some (f, pid) ∧ k.choice = some f ∧
        k.harvested.residency.frames.CooledBy k.passed r.frames := by
  have hhand : k.harvested.residency.hand < k.harvested.residency.frames.size :=
    h.harvested.frames.hand_lt
  obtain ⟨rfl, hcands, hframes⟩ | ⟨f, pid, rfl, hchoice, hcooled⟩ :=
    Residency.selectVictim_cases hhand h.harvested.frames.inReach hselect
  · rw [candidates_harvested] at hcands
    exact .inl ⟨rfl, by rw [choice, hcands]; rfl, hframes⟩
  · rw [h.isUsed_records, candidates_harvested] at hchoice hcooled
    exact .inr ⟨f, pid, rfl, hchoice, hcooled⟩

/-- Of the frames that the hand passes the bit goes off, in entry and copy. -/
theorem isUsed_swept {victim : Option (Frame × Pid)} (h : k.Sound pins none)
    (hswept : Residency.SweptTo pins k.harvested.residency victim r)
    (hcooled : k.harvested.residency.frames.CooledBy k.passed r.frames) :
    (k.swept r).isUsed g = (k.isUsed g && !k.passed.contains g) := by
  have htable : (k.swept r).isUsed = (k.swept r).residency.frames.isUsed :=
    isUsed_eq hswept.coherent fun _ => harvested_quiet
  rw [htable, ← h.isUsed_records]
  by_cases hg : g ∈ k.passed
  · rw [List.contains_iff_mem.2 hg, Bool.not_true, Bool.and_false]
    exact hcooled.isUsed_of_mem hg
  · rw [Bool.eq_false_iff.2 fun hmem => hg (List.contains_iff_mem.1 hmem), Bool.not_false,
      Bool.and_true]
    exact hcooled.isUsed hg

/-! ## The page that has to leave -/

theorem merged?_withoutPage {state : PageState} {swap : SwapSpace σ}
    (he : k.residency.page? pid v = some e) :
    (k.withoutPage f pid v e state swap).merged? q w =
      if q = pid ∧ w = v then some ((e.evicted state).absorb k.tlb.mappings) else k.merged? q w := by
  rw [merged?, residency_withoutPage, Residency.page?_link he, merged?]
  split <;> rfl

/-- A page whose frame has no copies in the TLB has the bits of its entry. -/
theorem merged?_of_unmapped (he : k.residency.page? pid v = some e) (hs : e.state = .resident f)
    (hout : ∀ m ∈ k.tlb.mappings, m.valid = true → m.ppn ≠ f) : k.merged? pid v = some e := by
  have hused : usedIn k.tlb.mappings f = false := bitIn_eq_false hout
  have hdirty : dirtyIn k.tlb.mappings f = false := bitIn_eq_false hout
  rw [merged?_eq_some he hs, hused, hdirty, Bool.or_false, Bool.or_false]

theorem Sound.held?_of_resident (h : k.Sound pins none) (he : k.residency.page? pid v = some e)
    (hs : e.state = .resident f) : k.held? f = some (pid, v) := by
  rw [held?, (h.frames.resident he hs).2]
  exact congrArg (fun v => some (pid, v)) (h.frames.numbered he)

/-- Taking a frame from its page is not seen from the other frames. -/
theorem Sound.isUsed_withoutPage {state : PageState} {swap : SwapSpace σ} (h : k.Sound pins none)
    (he : k.residency.page? pid v = some e) (hs : e.state = .resident f) (hg : g ≠ f) :
    (k.withoutPage f pid v e state swap).isUsed g = k.isUsed g := by
  refine isUsed_congr ?_ fun q w hpage => ?_
  · rw [held?, residency_withoutPage, Residency.frames_link, FrameTable.info?_put_ne hg, held?]
  · rw [merged?_withoutPage he, if_neg]
    rintro ⟨rfl, rfl⟩
    -- the page is in one frame only
    obtain ⟨i, hi, howner⟩ := Option.bind_eq_some_iff.1 hpage
    obtain ⟨q', hq, heq⟩ := Option.map_eq_some_iff.1 howner
    cases heq
    obtain ⟨e', he', hs', -⟩ := h.frames.owned hi (by simp) hq
    cases he.symm.trans he'
    exact hg (PageState.resident.inj (hs'.symm.trans hs))

/-! ## What an eviction leaves -/

/-- Frame `f` has been taken from page `v` of process `pid`.  Its entry was `e`, the bits of its
    copies included. -/
structure Evicted (content : σ → Nat → UInt8) (k : Kernel σ) (f : Frame) (pid : Pid) (v : Vpn)
    (e : PageEntry) (k' : Kernel σ) : Prop where
  /-- Content that is nowhere else has gone to a slot that was free. -/
  saved : e.needsSwap = true → ∃ s e', k'.merged? pid v = some e' ∧ e'.state = .swapped s ∧
    e'.used = false ∧ k.swap.slots.owner s = none ∧
    (∀ t, k'.swap.slots.owner t = if t = s then some ⟨pid, v⟩ else k.swap.slots.owner t) ∧
    k'.swap.slotBytes content s = k.memory.frameBytes f
  /-- Other content is dropped, and the swap area is not asked. -/
  dropped : e.needsSwap = false → k'.swap = k.swap ∧
    ∃ e', k'.merged? pid v = some e' ∧ e'.state = .absent ∧ e'.used = false
  blank : k'.residency.frames.info? f = some {}
  unpooled : f ∉ k'.residency.frames.pool.toList
  unmapped : ∀ m ∈ k'.tlb.mappings, m.valid = true → m.ppn ≠ f
  counted : k'.evictions = k.evictions + 1
  others : ∀ q w, ¬ (q = pid ∧ w = v) →
    (k'.merged? q w).map PageEntry.cold = (k.merged? q w).map PageEntry.cold
  frames : ∀ g, g ≠ f → (k'.residency.frames.info? g).map FrameInfo.holder =
    (k.residency.frames.info? g).map FrameInfo.holder
  cooled : ∀ g, g ≠ f → k'.isUsed g = (k.isUsed g && !k.passed.contains g)
  memory : k'.memory = k.memory

/-- Every page is where it was, and has lost its `used` bit at most. -/
structure Cooled (k k' : Kernel σ) : Prop where
  pages : ∀ q w, (k'.merged? q w).map PageEntry.cold = (k.merged? q w).map PageEntry.cold
  frames : ∀ g, (k'.residency.frames.info? g).map FrameInfo.holder =
    (k.residency.frames.info? g).map FrameInfo.holder
  owners : ∀ s, k'.swap.slots.owner s = k.swap.slots.owner s
  counted : k'.evictions = k.evictions
  memory : k'.memory = k.memory

/-- How an eviction ends. -/
inductive Evicting (content : σ → Nat → UInt8) (k : Kernel σ) :
    Except PagingError Frame → Kernel σ → Prop where
  | taken {f : Frame} {pid : Pid} {v : Vpn} {e : PageEntry} {k' : Kernel σ}
    (hchoice : k.choice = some f) (hheld : k.held? f = some (pid, v))
    (hentry : k.merged? pid v = some e) (hstate : e.state = .resident f)
    (hdone : Evicted content k f pid v e k') : Evicting content k (.ok f) k'
  /-- The store has not taken the content. -/
  | refused {f : Frame} {pid : Pid} {v : Vpn} {e : PageEntry} {error : StoreError} {k' : Kernel σ}
    (hchoice : k.choice = some f) (hheld : k.held? f = some (pid, v))
    (hentry : k.merged? pid v = some e) (hneeds : e.needsSwap = true) (hdone : Cooled k k') :
    Evicting content k (.error (.swap error)) k'
  | noVictim {k' : Kernel σ} (hchoice : k.choice = none) (hdone : Cooled k k') :
    Evicting content k (.error .outOfMemory) k'

theorem Sound.swept_cooled {victim : Option (Frame × Pid)} (h : k.Sound pins none)
    (hselect : k.harvested.residency.selectVictim = .ok (victim, r))
    (hswept : Residency.SweptTo pins k.harvested.residency victim r) : Cooled k (k.swept r) := by
  refine ⟨fun q w => merged?_swept hswept, fun g => ?_, fun _ => rfl, rfl, rfl⟩
  change (r.frames.info? g).map _ = _
  obtain ⟨-, -, hframes⟩ | ⟨_, _, -, -, hcooled⟩ := h.selectVictim_cases hselect
  · rw [hframes, holder_harvested]
  · rw [hcooled.holder, holder_harvested]

theorem Cooled.shotDown (h : Cooled k k₁) (hsound : k₁.Sound pins none) :
    Cooled k (k₁.shotDown f) :=
  ⟨fun q w => (congrArg _ hsound.merged?_shotDown).trans (h.pages q w),
    fun g => holder_shotDown.trans (h.frames g), h.owners, h.counted, h.memory⟩

/-- Without its page in frame `f`, whatever becomes of the page. -/
theorem Cooled.evicted {e₁ : PageEntry} {state : PageState} {swap : SwapSpace σ}
    (h : Cooled k k₁) (hsound : k₁.Sound pins none) (he : k₁.residency.page? pid v = some e₁)
    (hs : e₁.state = .resident f) (hstate : ∀ g, state ≠ .resident g)
    (hout : ∀ m ∈ k₁.tlb.mappings, m.valid = true → m.ppn ≠ f)
    (hused : ∀ g, k₁.isUsed g = (k.isUsed g && !k.passed.contains g))
    (hsaved : e.needsSwap = true → ∃ s, state = .swapped s ∧ k.swap.slots.owner s = none ∧
      (∀ t, swap.slots.owner t = if t = s then some ⟨pid, v⟩ else k.swap.slots.owner t) ∧
      swap.slotBytes content s = k.memory.frameBytes f)
    (hdropped : e.needsSwap = false → state = .absent ∧ swap = k.swap) :
    Evicted content k f pid v e (k₁.withoutPage f pid v e₁ state swap) := by
  have hentry : (k₁.withoutPage f pid v e₁ state swap).merged? pid v = some (e₁.evicted state) := by
    rw [merged?_withoutPage he, if_pos ⟨rfl, rfl⟩, PageEntry.absorb_of_not_resident hstate]
  refine {
    saved := fun hneeds => ?_, dropped := fun hneeds => ?_, blank := ?_, unpooled := ?_
    unmapped := hout, counted := congrArg (· + 1) h.counted, others := fun q w hother => ?_
    frames := fun g hg => ?_, cooled := fun g hg => ?_, memory := h.memory }
  · obtain ⟨s, rfl, hfree, howner, hbytes⟩ := hsaved hneeds
    exact ⟨s, _, hentry, rfl, rfl, hfree, howner, hbytes⟩
  · obtain ⟨rfl, rfl⟩ := hdropped hneeds
    exact ⟨rfl, _, hentry, rfl, rfl⟩
  · exact FrameTable.info?_put_self (hsound.frames.resident he hs).2
  · exact hsound.frames.notMem_pool he hs
  · rw [merged?_withoutPage he, if_neg hother]
    exact h.pages q w
  · rw [residency_withoutPage, Residency.frames_link, FrameTable.info?_put_ne hg]
    exact h.frames g
  · rw [hsound.isUsed_withoutPage he hs hg, hused]

/-- Eviction takes the frame that the clock chooses, if there is one and the store takes what is
    nowhere else. -/
theorem Sound.ends_evicting [BackingStore σ] (hstore : IsArray V content) (h : k.Sound pins none) :
    Ends V evict.run k (Evicting content k) := by
  refine ends_evict hstore.holds h (fun r hselect hswept => ?_) ?_
  · obtain ⟨-, hchoice, -⟩ | ⟨_, _, hvictim, -⟩ := h.selectVictim_cases hselect
    · exact .noVictim hchoice (h.swept_cooled hselect hswept)
    · cases hvictim
  intro f pid v e₁ r result k' hselect hswept _ he hs hvac
  obtain ⟨hvictim, -⟩ | ⟨_, _, hvictim, hchoice, hcooled⟩ := h.selectVictim_cases hselect
  · cases hvictim
  cases hvictim
  have hsound₁ := h.swept hswept
  have hsound : ((k.swept r).shotDown f).Sound pins none := hsound₁.shotDown
  have hsame := (h.swept_cooled hselect hswept).shotDown (f := f) hsound₁
  have hout : ∀ m ∈ ((k.swept r).shotDown f).tlb.mappings, m.valid = true → m.ppn ≠ f := by
    intro m hm hv
    obtain ⟨slot, hslot, rfl⟩ := List.mem_map.1 hm
    exact ne_of_takeFrame hslot hv
  have hused : ∀ g, ((k.swept r).shotDown f).isUsed g = (k.isUsed g && !k.passed.contains g) :=
    fun g => (isUsed_congr (held?_congr holder_shotDown)
      fun _ _ _ => hsound₁.merged?_shotDown).trans (isUsed_swept h hswept hcooled)
  -- what the page was before the eviction
  have hheld : k.held? f = some (pid, v) :=
    (held?_congr (hsame.frames f)).symm.trans (hsound.held?_of_resident he hs)
  have hpage := hsame.pages pid v
  rw [merged?_of_unmapped he hs hout] at hpage
  obtain ⟨e, hentry, hcold⟩ := Option.map_eq_some_iff.1 hpage.symm
  have hstate : e.cold.state = e₁.cold.state := congrArg PageEntry.state hcold
  have hneeds : e.cold.needsSwap = e₁.cold.needsSwap := congrArg PageEntry.needsSwap hcold
  change e.state = e₁.state at hstate
  change e.needsSwap = e₁.needsSwap at hneeds
  have hlen : (k.memory.frameBytes f).length = k.swap.pageSize := by
    rw [h.swapSize]
    refine PhysicalMemory.length_frameBytes h.memory ?_
    exact hsound.numFrames ▸ FrameTable.lt_size (hsound.frames.resident he hs).2
  cases hvac with
  | dropped hclean =>
    refine .taken hchoice hheld hentry (hstate.trans hs)
      (hsame.evicted hsound he hs (by simp) hout hused (fun hdirty => ?_) fun _ => ⟨rfl, rfl⟩)
    cases (hneeds.trans hclean).symm.trans hdirty
  | @saved s swap hdirty hswap =>
    refine .taken hchoice hheld hentry (hstate.trans hs)
      (hsame.evicted hsound he hs (by simp) hout hused (fun _ => ?_) fun hclean => ?_)
    · have howner : ∀ t, swap.slots.owner t =
          if t = s then some ⟨pid, v⟩ else k.swap.slots.owner t := by
        intro t
        cases hswap with
        | done => exact SlotTable.owner_allocate
      exact ⟨s, rfl, hswap.owner_eq_none, howner, hswap.slotBytes_self hlen⟩
    · cases (hneeds.trans hdirty).symm.trans hclean
  | refused hdirty hswap =>
    refine .refused hchoice hheld hentry (hneeds.trans hdirty) ⟨hsame.pages, hsame.frames,
      fun s => ?_, hsame.counted, hsame.memory⟩
    cases hswap with
    | failed _ hslots => exact hslots s

/-- An eviction takes the choice of the clock, on a machine of any number of frames: those that the
    hand does not come to have no owner. -/
theorem Reachable.evicts_choice [BackingStore σ] (h : k.Reachable) (hstore : IsArray V content) :
    Ends V evict.run k (Evicting content k) := by
  obtain ⟨pins, hsound, -⟩ := h.sound
  exact hsound.ends_evicting hstore

/-! ### Three frames -/

/-- What there is to see of the second page before an eviction, and of the eviction: the bit in the
    entry and with its copy, the frames that the hand passes, the frame that is taken, and what the
    second slot of the swap area holds then. -/
def seenAtChoice (k : Kernel MemoryStore) :
    (Option Bool × Bool × List Frame) × Option Frame × Option Bytes :=
  (((k.residency.page? 1 1).map (·.used), k.isUsed 1, k.passed), answer? evict k,
    (evict.run.run k).toOption.map fun r => r.2.swap.slotBytes MemoryStore.content 1)

/-- Page 0 had to give its frame to page 3, and the hand turned off the bits of the others. -/
theorem exists_choice : ∃ k : Kernel MemoryStore, k.Reachable ∧
    seenAtChoice k = ((some false, true, [1]), some 2, some [9, 0, 0, 0]) := by
  have hrun : (boot 4 { physPages := 3, tlbSize := 4, stackPages := 4 } ({} : MemoryStore) [] [] >>=
      fun k => (fun r => seenAtChoice r.2) <$> (Kernel.run [.spawn [], .process 1 (.storeByte 0 7),
        .process 1 (.loadByte 4), .process 1 (.storeByte 8 9), .process 1 (.loadByte 12),
        .process 1 (.storeByte 4 5)]).run k).toOption =
      some ((some false, true, [1]), some 2, some [9, 0, 0, 0]) := by
    decide +kernel
  exact Reachable.exists_of_run hrun

/-- Page 1 was written through the TLB after its `used` bit had been turned off.  The bit in the
    TLB saves its frame from the hand, which takes frame 2; page 2 was written and goes to slot 1. -/
theorem Reachable.evicts_choice_of_copy : ∃ k : Kernel MemoryStore, k.Reachable ∧
    (k.residency.page? 1 1).map (·.used) = some false ∧ k.isUsed 1 = true ∧ k.passed = [1] ∧
    ∃ k', evict.run.run k = .ok (.ok 2, k') ∧ Evicting MemoryStore.content k (.ok 2) k' ∧
      k'.swap.slotBytes MemoryStore.content 1 = [9, 0, 0, 0] := by
  obtain ⟨k, hreach, hseen⟩ := exists_choice
  simp only [seenAtChoice, Prod.mk.injEq, answer?_eq_some] at hseen
  obtain ⟨⟨hused, hcopy, hpassed⟩, ⟨k', hrun⟩, hbytes⟩ := hseen
  rw [hrun] at hbytes
  have hends : Ends (fun _ => False) evict.run k (Evicting MemoryStore.content k) :=
    Reachable.evicts_choice hreach MemoryStore.isArray
  exact ⟨k, hreach, hused, hcopy, hpassed, k', hrun, hends.of_run hrun, Option.some.inj hbytes⟩

end Kernel

end DemandPaging
