/-
  What faults and exits have done, counted from outside.

  A `Tally` is read off the states of pages, and the owners of frames and slots, before and after
  a visit to a page or an exit; the counters of the kernel have no part in it.  `Moved` says that
  the counters have moved by a tally.

  A visit resolves its page, and changes nothing but bits and bytes afterwards (`Visited`).  So it
  is enough to follow a fault: the frame that it gets (`Emptied`), the content that it fetches, and
  the page in its frame or the frame back in the pool.
-/
import DemandPaging.Proofs.Agreement
import DemandPaging.Proofs.Victim

namespace DemandPaging

/-- The content is in a frame. -/
def PageState.isResident : PageState → Bool
  | .resident _ => true
  | _ => false

theorem PageState.isResident_eq_false {state : PageState} (h : ∀ f, state ≠ .resident f) :
    state.isResident = false := by
  cases state with
  | resident f => exact absurd rfl (h f)
  | _ => rfl

/-- What has happened, in numbers. -/
structure Tally where
  /-- Faults at a page in no frame that have brought the page in. -/
  served : Nat := 0
  /-- Faults at a page in no frame that have not. -/
  failed : Nat := 0
  /-- Pages that have lost their frame to a fault. -/
  evicted : Nat := 0
  /-- Those of them that have gone to swap. -/
  saved : Nat := 0
  /-- Frames that have lost their owner as a process ended. -/
  released : Nat := 0
  /-- Slots that have. -/
  freed : Nat := 0
deriving DecidableEq, Repr

/-- What is counted before is counted after as well, or has been lost. -/
theorem countP_add_lost {α β : Type} {l : List α} {before after : α → Option β}
    (h : ∀ a, (after a).isSome = true → (before a).isSome = true) :
    (l.countP fun a => (after a).isSome) +
        (l.countP fun a => (before a).isSome && (after a).isNone) =
      l.countP fun a => (before a).isSome := by
  have hkept : ∀ a, ((before a).isSome && (after a).isSome) = (after a).isSome := by
    intro a
    cases ha : (after a).isSome with
    | false => exact Bool.and_false _
    | true => rw [h a ha]; rfl
  have hsplit :=
    List.countP_eq_countP_filter_add l (fun a => (before a).isSome) fun a => (after a).isSome
  simp only [List.countP_filter, hkept, Option.not_isSome] at hsplit
  exact hsplit.symm

/-- As many slots are in use as have an owner, however far one looks. -/
theorem SlotTable.inUse_eq {table : SlotTable} {n : Nat}
    (h : ∀ s, (table.owner s).isSome = true → s < n) :
    table.inUse = (List.range n).countP fun s => (table.owner s).isSome := by
  rw [List.countP_eq_length_filter]
  refine inUse_eq_length (List.nodup_range.filter _) fun s => ?_
  rw [List.mem_filter, List.mem_range]
  exact ⟨fun hs => hs.2, fun hs => ⟨h s hs, hs⟩⟩

namespace Tally

instance : Add Tally where
  add t u := ⟨t.served + u.served, t.failed + u.failed, t.evicted + u.evicted, t.saved + u.saved,
    t.released + u.released, t.freed + u.freed⟩

theorem add_eq (t u : Tally) : t + u = ⟨t.served + u.served, t.failed + u.failed,
    t.evicted + u.evicted, t.saved + u.saved, t.released + u.released, t.freed + u.freed⟩ := rfl

end Tally

namespace Kernel

variable {σ : Type} {c : Conduct σ} {pins pins' : Frame → Nat} {k k' k₁ k₂ : Kernel σ}
  {pid q : Pid} {v w : Vpn} {e : PageEntry} {f g : Frame} {p : Process} {t u : Tally}
  {state : PageState} {lost : PageState → Bool}

/-! ## Pages that lose their frames -/

/-- Where the content of a page is. -/
def state? (k : Kernel σ) (pid : Pid) (v : Vpn) : Option PageState :=
  (k.residency.page? pid v).map (·.state)

/-- The number of pages that were in frames in `k` and are in a state in `lost` in `k'`. -/
def displaced (lost : PageState → Bool) (k k' : Kernel σ) : Nat :=
  (List.range k.residency.frames.size).countP fun f =>
    (k.held? f).any fun page => (k'.state? page.1 page.2).any lost

theorem Sound.held?_eq_some_iff (h : k.Sound pins none) :
    k.held? f = some (q, w) ↔ k.state? q w = some (.resident f) := by
  constructor
  · intro hheld
    obtain ⟨i, hi, howner⟩ := Option.bind_eq_some_iff.1 hheld
    obtain ⟨pid, ho, heq⟩ := Option.map_eq_some_iff.1 howner
    obtain ⟨e, he, hs, -⟩ := h.frames.owned hi (by simp) ho
    cases heq
    rw [state?, he, Option.map_some, hs]
  · intro hstate
    obtain ⟨e, he, hs⟩ := Option.map_eq_some_iff.1 hstate
    exact h.held?_of_resident he hs

theorem lt_size_of_held? {page : Pid × Vpn} (h : k.held? f = some page) :
    f < k.residency.frames.size := by
  obtain ⟨i, hi, -⟩ := Option.bind_eq_some_iff.1 h
  exact FrameTable.lt_size hi

theorem displaced_eq_zero (h : k.Sound pins none)
    (hkept : ∀ q w f, k.state? q w = some (.resident f) → (k'.state? q w).any lost = false) :
    displaced lost k k' = 0 := by
  refine List.countP_eq_zero.2 fun f _ hlost => ?_
  obtain ⟨⟨q, w⟩, hheld, hany⟩ := (Option.any_eq_true _ _).1 hlost
  rw [hkept q w f (h.held?_eq_some_iff.1 hheld)] at hany
  cases hany

/-- When all other pages keep their frames, one page counts. -/
theorem displaced_eq (h : k.Sound pins none) (hstate : k.state? pid v = some (.resident f))
    (hkept : ∀ q w g, k.state? q w = some (.resident g) → ¬ (q = pid ∧ w = v) →
      (k'.state? q w).any lost = false) :
    displaced lost k k' = if (k'.state? pid v).any lost then 1 else 0 := by
  cases hlost : (k'.state? pid v).any lost with
  | false =>
    refine displaced_eq_zero h fun q w g hg => ?_
    by_cases hpage : q = pid ∧ w = v
    · rw [hpage.1, hpage.2, hlost]
    · exact hkept q w g hg hpage
  | true =>
    have hheld := h.held?_eq_some_iff.2 hstate
    have hcount :=
      List.count_eq_one_of_mem List.nodup_range (List.mem_range.2 (lt_size_of_held? hheld))
    rw [if_pos rfl, ← hcount, List.count_eq_countP]
    refine List.countP_congr fun g _ => ?_
    rw [beq_iff_eq, Option.any_eq_true]
    constructor
    · rintro ⟨⟨q, w⟩, hg, hany⟩
      by_cases hpage : q = pid ∧ w = v
      · -- the page is in one frame only
        rw [hpage.1, hpage.2, h.held?_eq_some_iff, hstate] at hg
        exact (PageState.resident.inj (Option.some.inj hg)).symm
      · rw [hkept q w g (h.held?_eq_some_iff.1 hg) hpage] at hany
        cases hany
    · rintro rfl
      exact ⟨_, hheld, hlost⟩

/-- As many frames have an owner as have a page. -/
theorem ownedFrames_eq : k.residency.frames.ownedFrames =
    (List.range k.residency.frames.size).countP fun f => (k.held? f).isSome := by
  rw [FrameTable.ownedFrames, Row.countP_eq, List.countP_eq_length_filter (l := List.range _)]
  refine (length_eq_countP (List.nodup_range.filter _) fun f => ?_).symm
  rw [List.mem_filter, List.mem_range, ← FrameTable.info?_eq]
  constructor
  · rintro ⟨-, hheld⟩
    obtain ⟨page, hpage⟩ := Option.isSome_iff_exists.1 hheld
    obtain ⟨i, hi, howner⟩ := Option.bind_eq_some_iff.1 hpage
    obtain ⟨q, ho, -⟩ := Option.map_eq_some_iff.1 howner
    exact ⟨i, hi, by rw [FrameInfo.isOwned, ho]; rfl⟩
  · rintro ⟨i, hi, ho⟩
    refine ⟨FrameTable.lt_size hi, ?_⟩
    rw [held?, hi, Option.bind_some, Option.isSome_map]
    exact ho

/-- Frames have owners as pages have frames. -/
theorem Sound.ownedFrames_congr (h : k.Sound pins none) (h' : k'.Sound pins' none)
    (hconfig : k'.config = k.config) (hstates : ∀ q w, k'.state? q w = k.state? q w) :
    k'.residency.frames.ownedFrames = k.residency.frames.ownedFrames := by
  have hsize : k'.residency.frames.size = k.residency.frames.size := by
    rw [h'.numFrames, h'.physPages, hconfig, ← h.physPages, ← h.numFrames]
  have hheld : ∀ f, k'.held? f = k.held? f := by
    intro f
    refine Option.ext fun ⟨q, w⟩ => ?_
    rw [h'.held?_eq_some_iff, h.held?_eq_some_iff, hstates]
  rw [ownedFrames_eq, ownedFrames_eq, hsize]
  simp only [hheld]

/-! ## Tallies and counters -/

/-- What a visit to page `v` of process `pid` has done.  Nothing is asked for a page that is in its
    frame, or of a page that is not there. -/
def ofVisit (k k' : Kernel σ) (pid : Pid) (v : Vpn) : Tally :=
  if (k.state? pid v).any (!·.isResident) then
    { served := if (k'.state? pid v).any (·.isResident) then 1 else 0
      failed := if (k'.state? pid v).any (·.isResident) then 0 else 1
      evicted := displaced (!·.isResident) k k'
      saved := displaced (·.isSwapped) k k' }
  else {}

/-- What the end of a process has done. -/
def ofExit (k k' : Kernel σ) : Tally where
  released := (List.range k.residency.frames.size).countP fun f =>
    (k.held? f).isSome && (k'.held? f).isNone
  freed := (List.range k.swap.slots.size).countP fun s =>
    (k.swap.slots.owner s).isSome && (k'.swap.slots.owner s).isNone

/-- The counters have moved by a tally. -/
structure Moved (t : Tally) (k k' : Kernel σ) : Prop where
  faults : k'.pageFaults = k.pageFaults + t.served + t.failed
  frames : k'.residency.frames.ownedFrames + k'.evictions + t.released =
    k.residency.frames.ownedFrames + k.evictions + t.served
  slots : k'.swap.slots.inUse + k'.swap.reads + t.freed + k.swap.writes =
    k.swap.slots.inUse + k.swap.reads + k'.swap.writes
  writes : k'.swap.writes = k.swap.writes + t.saved
  evictions : k'.evictions = k.evictions + t.evicted
  saved_le : t.saved ≤ t.evicted
  evicted_le : t.evicted ≤ t.served + t.failed

theorem Moved.trans (h : Moved t k k₁) (h' : Moved u k₁ k') : Moved (t + u) k k' := by
  obtain ⟨hfaults, hframes, hslots, hwrites, hevictions, hsaved, hevicted⟩ := h
  obtain ⟨hfaults', hframes', hslots', hwrites', hevictions', hsaved', hevicted'⟩ := h'
  rw [Tally.add_eq]
  constructor <;> dsimp only <;> omega

/-- The statistics of a kernel agree with the tally of what has happened. -/
structure Balanced (t : Tally) (k : Kernel σ) : Prop where
  faults : k.stats.pageFaults = t.served + t.failed
  frames : k.stats.ownedFrames + k.stats.evictions + t.released = t.served
  slots : k.stats.swapSlotsInUse + k.stats.swapReads + t.freed = k.stats.swapWrites
  saved : t.saved = k.stats.swapWrites
  evicted : t.evicted = k.stats.evictions
  writes_le : k.stats.swapWrites ≤ k.stats.evictions
  evictions_le : k.stats.evictions ≤ k.stats.pageFaults

/-- A fresh kernel has counted nothing. -/
theorem ends_boot_balanced {pageSize : Nat} {config : Config} {store : σ} {sections : List Section}
    {picks : List Nat} :
    Checked.Ends (fun _ => True) (boot pageSize config store sections picks) (Balanced {}) := by
  simp only [boot, Checked.ends_bind, Checked.ends_pure]
  refine Checked.ends_of_forall fun memory => ?_
  refine FrameTable.ends_create.imp fun frames hframes => ?_
  refine Checked.ends_of_forall fun tlb => ?_
  have howned : frames.ownedFrames = 0 := by
    rw [FrameTable.ownedFrames, Row.countP_eq, List.countP_eq_zero]
    intro i hi
    obtain ⟨f, hf⟩ := FrameTable.mem_frames_iff.1 hi
    rw [hframes.2.1 f i hf]
    exact Bool.false_ne_true
  exact ⟨rfl, howned, rfl, rfl, rfl, Nat.le_refl _, Nat.le_refl _⟩

theorem Balanced.moved (h : Balanced t k) (hmoved : Moved u k k') :
    Balanced (t + u) k' := by
  obtain ⟨hfaults, hframes, hslots, hsaved, hevicted, hwrites, hevictions⟩ := h
  obtain ⟨hfaults', hframes', hslots', hwrites', hevictions', hsaved', hevicted'⟩ := hmoved
  simp only [stats] at *
  rw [Tally.add_eq]
  constructor <;> dsimp only [stats] <;> omega

/-- Pages are where they were, and all is counted as before. -/
structure Still (k k' : Kernel σ) : Prop where
  states : ∀ q w, k'.state? q w = k.state? q w
  owned : k'.residency.frames.ownedFrames = k.residency.frames.ownedFrames
  inUse : k'.swap.slots.inUse = k.swap.slots.inUse
  reads : k'.swap.reads = k.swap.reads
  writes : k'.swap.writes = k.swap.writes
  faults : k'.pageFaults = k.pageFaults
  evictions : k'.evictions = k.evictions

theorem Still.refl : Still k k := ⟨fun _ _ => rfl, rfl, rfl, rfl, rfl, rfl, rfl⟩

theorem Still.trans (h : Still k k₁) (h' : Still k₁ k') : Still k k' :=
  ⟨fun q w => (h'.states q w).trans (h.states q w), h'.owned.trans h.owned, h'.inUse.trans h.inUse,
    h'.reads.trans h.reads, h'.writes.trans h.writes, h'.faults.trans h.faults,
    h'.evictions.trans h.evictions⟩

theorem Still.moved (h : Still k k') : Moved {} k k' := by
  obtain ⟨-, howned, hinUse, hreads, hwrites, hfaults, hevictions⟩ := h
  constructor <;> dsimp only <;> omega

theorem Moved.still (h : Moved t k k₁) (h' : Still k₁ k') : Moved t k k' := by
  obtain ⟨hfaults, hframes, hslots, hwrites, hevictions, hsaved, hevicted⟩ := h
  obtain ⟨-, howned, hinUse, hreads, hwrites', hfaults', hevictions'⟩ := h'
  constructor <;> omega

theorem ofVisit_congr (h : Still k₁ k') : k.ofVisit k' pid v = k.ofVisit k₁ pid v := by
  simp only [ofVisit, displaced, h.states]

/-! ## Getting a frame -/

/-- A frame has been got, for which `n` pages have lost theirs, and `m` of these are in swap now. -/
structure Emptied (n m : Nat) (k k' : Kernel σ) : Prop where
  /-- This can be told from any kernel that follows, whatever has become of one page that was in
      no frame. -/
  evicted : ∀ {k₂ pid v}, (∀ g, k.state? pid v ≠ some (.resident g)) →
    (∀ q w, ¬ (q = pid ∧ w = v) → k₂.state? q w = k'.state? q w) →
    displaced (!·.isResident) k k₂ = n
  saved : ∀ {k₂ pid v}, (∀ g, k.state? pid v ≠ some (.resident g)) →
    (∀ q w, ¬ (q = pid ∧ w = v) → k₂.state? q w = k'.state? q w) →
    displaced (·.isSwapped) k k₂ = m
  owned : k'.residency.frames.ownedFrames + n = k.residency.frames.ownedFrames
  inUse : k'.swap.slots.inUse = k.swap.slots.inUse + m
  reads : k'.swap.reads = k.swap.reads
  writes : k'.swap.writes = k.swap.writes + m
  faults : k'.pageFaults = k.pageFaults
  evictions : k'.evictions = k.evictions + n
  saved_le : m ≤ n
  evicted_le : n ≤ 1

theorem Still.emptied (h : Still k k') (hk : k.Sound pins none) : Emptied 0 0 k k' := by
  have hnone : ∀ {k₂ : Kernel σ} {pid v} {lost : PageState → Bool},
      (∀ g, lost (.resident g) = false) →
      (∀ g, k.state? pid v ≠ some (.resident g)) →
      (∀ q w, ¬ (q = pid ∧ w = v) → k₂.state? q w = k'.state? q w) → displaced lost k k₂ = 0 := by
    intro k₂ pid v lost hlost hout hsame
    refine displaced_eq_zero hk fun q w g hg => ?_
    rw [hsame q w (by rintro ⟨rfl, rfl⟩; exact hout g hg), h.states, hg]
    exact hlost g
  exact ⟨hnone fun _ => rfl, hnone fun _ => rfl, h.owned, h.inUse, h.reads, h.writes, h.faults,
    h.evictions, Nat.le_refl _, Nat.zero_le _⟩

/-- A page leaves its frame when nothing else has changed before. -/
theorem Still.emptied_of_lost (h : Still k k₁) (hk : k.Sound pins none) {m : Nat}
    (hheld : k₁.state? pid v = some (.resident f)) (hstate : state.isResident = false)
    (hm : m = if state.isSwapped then 1 else 0)
    (hpages : ∀ q w, k'.state? q w = if q = pid ∧ w = v then some state else k₁.state? q w)
    (howned : k'.residency.frames.ownedFrames + 1 = k₁.residency.frames.ownedFrames)
    (hinUse : k'.swap.slots.inUse = k₁.swap.slots.inUse + m)
    (hreads : k'.swap.reads = k₁.swap.reads) (hwrites : k'.swap.writes = k₁.swap.writes + m)
    (hfaults : k'.pageFaults = k₁.pageFaults) (hevictions : k'.evictions = k₁.evictions + 1) :
    Emptied 1 m k k' := by
  have hbefore : k.state? pid v = some (.resident f) := (h.states pid v).symm.trans hheld
  have hone : ∀ (lost : PageState → Bool) {k₂ : Kernel σ} {q w}, (∀ g, lost (.resident g) = false) →
      (∀ g, k.state? q w ≠ some (.resident g)) →
      (∀ q' w', ¬ (q' = q ∧ w' = w) → k₂.state? q' w' = k'.state? q' w') →
      displaced lost k k₂ = if lost state then 1 else 0 := by
    intro lost k₂ q w hlost hout hsame
    have hother : ∀ q' w' g, k.state? q' w' = some (.resident g) →
        k₂.state? q' w' = k'.state? q' w' :=
      fun q' w' g hg => hsame q' w' (by rintro ⟨rfl, rfl⟩; exact hout g hg)
    have hafter : k₂.state? pid v = some state := by
      rw [hother pid v f hbefore, hpages, if_pos ⟨rfl, rfl⟩]
    rw [displaced_eq hk hbefore fun q' w' g hg hne => ?_, hafter, Option.any_some]
    rw [hother q' w' g hg, hpages, if_neg hne, h.states, hg]
    exact hlost g
  constructor
  · intro k₂ q w hout hsame
    rw [hone (!·.isResident) (fun _ => rfl) hout hsame, hstate]
    rfl
  · intro k₂ q w hout hsame
    rw [hone (·.isSwapped) (fun _ => rfl) hout hsame, hm]
  · rw [howned, h.owned]
  · rw [hinUse, h.inUse]
  · rw [hreads, h.reads]
  · rw [hwrites, h.writes]
  · rw [hfaults, h.faults]
  · rw [hevictions, h.evictions]
  · rw [hm]
    split <;> omega
  · exact Nat.le_refl _

theorem Vacated.still {error : PagingError} (hvac : Vacated c f pid v e k (.error error) k') :
    Still k k' := by
  cases hvac with
  | refused _ hswap =>
    cases hswap with
    | failed _ hslots =>
      exact ⟨fun _ _ => rfl, rfl, SlotTable.inUse_congr hslots, rfl, rfl, rfl, rfl⟩

theorem Vacated.emptied (hvac : Vacated c f pid v e k₁ (.ok ()) k') (hstill : Still k k₁)
    (hk : k.Sound pins none) (hk₁ : k₁.Sound pins none)
    (he : k₁.residency.page? pid v = some e) (hs : e.state = .resident f) :
    ∃ n m, Emptied n m k k' := by
  have hheld : k₁.state? pid v = some (.resident f) := by rw [state?, he, Option.map_some, hs]
  have hpages : ∀ {state : PageState} {swap : SwapSpace σ} q w,
      (k₁.withoutPage f pid v e state swap).state? q w =
        if q = pid ∧ w = v then some state else k₁.state? q w := by
    intro state swap q w
    rw [state?, residency_withoutPage, Residency.page?_link he, state?]
    split <;> rfl
  have howned : ∀ {state : PageState} {swap : SwapSpace σ},
      (k₁.withoutPage f pid v e state swap).residency.frames.ownedFrames + 1 =
        k₁.residency.frames.ownedFrames := by
    intro state swap
    rw [residency_withoutPage, Residency.frames_link]
    exact FrameTable.ownedFrames_put (hk₁.frames.resident he hs).2
  cases hvac with
  | dropped _ =>
    exact ⟨1, 0, hstill.emptied_of_lost hk hheld rfl rfl hpages howned rfl rfl rfl rfl rfl⟩
  | saved _ hswap =>
    cases hswap with
    | done _ =>
      refine ⟨1, 1, hstill.emptied_of_lost hk hheld rfl rfl hpages howned ?_ rfl rfl rfl rfl⟩
      exact SlotTable.inUse_allocate

theorem Sound.swept_still {victim : Option (Frame × Pid)} {r : Residency} (h : k.Sound pins none)
    (hswept : Residency.SweptTo pins k.harvested.residency victim r) : Still k (k.swept r) := by
  have hstates : ∀ q w, (k.swept r).state? q w = k.state? q w := fun q w =>
    hswept.cools.states.trans Residency.states_absorb
  exact ⟨hstates, h.ownedFrames_congr (h.swept hswept) rfl hstates, rfl, rfl, rfl, rfl, rfl⟩

/-- Copies may be written back at any time. -/
theorem Sound.absorbed_still {tlb : Tlb} {choices : Choices} {copies : List Mapping}
    (h : k.Sound pins none)
    (h' : Sound pins none { k with tlb, choices, residency := k.residency.absorb copies }) :
    Still k { k with tlb, choices, residency := k.residency.absorb copies } :=
  ⟨fun _ _ => Residency.states_absorb,
    h.ownedFrames_congr h' rfl fun _ _ => Residency.states_absorb, rfl, rfl, rfl, rfl, rfl⟩

theorem Chosen.still {r : Residency} (hchosen : Chosen pins k f pid v e r) (h : k.Sound pins none) :
    Still k ((k.swept r).shotDown f) := by
  have h₁ := h.swept hchosen.swept
  exact (h.swept_still hchosen.swept).trans (h₁.absorbed_still h₁.shotDown)

/-- Without a frame for the fault, no page has lost its own. -/
theorem Allocated.still {error : PagingError} (hall : Allocated c pins k (.error error) k')
    (h : k.Sound pins none) : Still k k' := by
  cases hall with
  | noVictim _ _ hswept => exact h.swept_still hswept
  | refused hchosen hvac => exact (hchosen.still h).trans hvac.still

theorem Allocated.emptied (hall : Allocated c pins k (.ok f) k') (h : k.Sound pins none) :
    ∃ n m, Emptied n m k k' := by
  cases hall with
  | pooled htake =>
    have hframes := (FrameTable.takeOne_eq_some htake).1
    refine ⟨0, 0, Still.emptied ⟨fun _ _ => ?_, ?_, rfl, rfl, rfl, rfl, rfl⟩ h⟩
    · exact congrArg (Option.map _) Residency.page?_frames
    · exact congrArg (fun frames : Row FrameInfo => frames.countP (·.isOwned)) hframes
  | taken hchosen hvac =>
    exact hvac.emptied (hchosen.still h) h (hchosen.undisturbed h).sound hchosen.page hchosen.state

/-! ## Faults -/

/-- A page that comes from swap gives its slot up. -/
theorem Fetched.counts {r : Except PagingError Bytes} (h : Fetched c p e k r k')
    (hk : k.Sound pins loose) (he : k.residency.page? pid v = some e) :
    k'.swap.slots.inUse + k'.swap.reads = k.swap.slots.inUse + k.swap.reads ∧
      k'.swap.writes = k.swap.writes := by
  cases h with
  | @swapped s _ _ hs hswap =>
    obtain ⟨o, ho⟩ := hk.slot_owned he hs
    cases hswap with
    | done _ hslots =>
      have hfreed := SlotTable.inUse_freed ho hslots
      exact ⟨by dsimp only; omega, rfl⟩
    | failed _ => exact ⟨rfl, rfl⟩
  | image => exact ⟨rfl, rfl⟩
  | zero => exact ⟨rfl, rfl⟩

theorem ofVisit_of_nothing (h : (k.state? pid v).any (!·.isResident) = false) :
    k.ofVisit k' pid v = {} :=
  if_neg (by rw [h]; exact Bool.false_ne_true)

/-- A frame has been got for page `v` of process `pid`, and has an owner now if the page is in
    it. -/
theorem Emptied.moved {n m : Nat} (h : Emptied n m k.faulting k₁)
    (hstate : k.state? pid v = some state) (hout : ∀ g, state ≠ .resident g)
    (hpages : ∀ q w, ¬ (q = pid ∧ w = v) → k'.state? q w = k₁.state? q w)
    (howned : k'.residency.frames.ownedFrames =
      k₁.residency.frames.ownedFrames + if (k'.state? pid v).any (·.isResident) then 1 else 0)
    (hslots : k'.swap.slots.inUse + k'.swap.reads = k₁.swap.slots.inUse + k₁.swap.reads)
    (hwrites : k'.swap.writes = k₁.swap.writes) (hfaults : k'.pageFaults = k₁.pageFaults)
    (hevictions : k'.evictions = k₁.evictions) : Moved (k.ofVisit k' pid v) k k' := by
  have hmissing : ∀ g, k.state? pid v ≠ some (.resident g) := by
    rw [hstate]
    exact fun g heq => hout g (Option.some.inj heq)
  have hfault : (k.state? pid v).any (!·.isResident) = true := by
    rw [hstate, Option.any_some, PageState.isResident_eq_false hout]
    rfl
  have hevicted : displaced (!·.isResident) k k' = n := h.evicted hmissing hpages
  have hsaved : displaced (·.isSwapped) k k' = m := h.saved hmissing hpages
  obtain ⟨-, -, howned₁, hinUse₁, hreads₁, hwrites₁, hfaults₁, hevictions₁, hle, hone⟩ := h
  simp only [faulting] at howned₁ hinUse₁ hreads₁ hwrites₁ hfaults₁ hevictions₁
  rw [ofVisit, if_pos hfault, hevicted, hsaved]
  cases hcame : (k'.state? pid v).any (·.isResident) <;>
    simp only [hcame, Bool.false_eq_true, if_false, if_true] at howned ⊢ <;>
    constructor <;> dsimp only <;> omega

/-- The content has been asked for after a frame was got for it. -/
theorem Fetched.moved {r : Except PagingError Bytes} (hfetch : Fetched c p e k₁ r k₂)
    (hall : Allocated c pins k.faulting (.ok f) k₁) (h : k.Sound pins none)
    (he : k.residency.page? pid v = some e) (hs : ∀ g, e.state ≠ .resident g)
    (hpages : ∀ q w, ¬ (q = pid ∧ w = v) → k'.state? q w = k₁.state? q w)
    (howned : k'.residency.frames.ownedFrames =
      k₁.residency.frames.ownedFrames + if (k'.state? pid v).any (·.isResident) then 1 else 0)
    (hswap : k'.swap = k₂.swap) (hfaults : k'.pageFaults = k₁.pageFaults)
    (hevictions : k'.evictions = k₁.evictions) : Moved (k.ofVisit k' pid v) k k' := by
  obtain ⟨n, m, hemptied⟩ := hall.emptied h.faulting
  obtain ⟨h₁, -, -, -, -, -, helse⟩ := hall.gained h.faulting
  obtain ⟨hinUse, hwrites⟩ := hfetch.counts h₁ (helse he hs)
  rw [← hswap] at hinUse hwrites
  exact hemptied.moved (congrArg (Option.map _) he) hs hpages howned hinUse hwrites hfaults hevictions

theorem PagedIn.moved {r : Except PagingError Mapping} (hin : PagedIn c pins pid p v e k r k')
    (h : k.Sound pins none) (he : k.residency.page? pid v = some e)
    (hs : ∀ g, e.state ≠ .resident g) : Moved (k.ofVisit k' pid v) k k' := by
  have hstate : k.state? pid v = some e.state := congrArg (Option.map _) he
  have hout : e.state.isResident = false := PageState.isResident_eq_false hs
  cases hin with
  | starved hall =>
    have hstill := hall.still h.faulting
    have hsame : k'.state? pid v = some e.state := (hstill.states pid v).trans hstate
    refine (hstill.emptied h.faulting).moved hstate hs (fun _ _ _ => rfl) ?_ rfl rfl rfl rfl
    rw [hsame, Option.any_some, hout]
    rfl
  | @loaded f k₁ page k₂ hall hfetch _ =>
    obtain ⟨-, -, hblank, -, -, -, helse⟩ := hall.gained h.faulting
    obtain ⟨swap, sections, rfl, -⟩ := hfetch.rest
    have hpages : ∀ q w,
        Kernel.state? (Kernel.withPage { k₁ with swap, sections } f pid v e page) q w =
        if q = pid ∧ w = v then some (.resident f) else k₁.state? q w := by
      intro q w
      rw [state?, withPage, Residency.page?_link (helse he hs), state?]
      split <;> rfl
    refine hfetch.moved hall h he hs (fun q w hother => ?_) ?_ rfl rfl rfl
    · rw [hpages, if_neg hother]
    · have hcame := (hpages pid v).trans (if_pos ⟨rfl, rfl⟩)
      rw [hcame]
      exact FrameTable.ownedFrames_put hblank
  | @failed f k₁ error k₂ hall hfetch =>
    obtain ⟨-, -, hblank, -, -, -, helse⟩ := hall.gained h.faulting
    obtain ⟨swap, sections, rfl, -⟩ := hfetch.rest
    have hpages : ∀ q w, Kernel.state? (Kernel.withFree { k₁ with swap, sections } f) q w =
        k₁.state? q w := fun q w => congrArg (Option.map _) Residency.page?_frames
    refine hfetch.moved hall h he hs (fun q w _ => hpages q w) ?_ rfl rfl rfl
    rw [hpages, state?, helse he hs, Option.map_some, Option.any_some, hout]
    exact FrameTable.ownedFrames_put hblank

theorem Resolved.moved {r : Except PagingError Mapping} (hres : Resolved c pins pid v k r k')
    (h : k.Sound pins none) : Moved (k.ofVisit k' pid v) k k' := by
  -- without a fault nothing has happened
  have hnothing : (k.state? pid v).any (!·.isResident) = false → Moved (k.ofVisit k pid v) k k :=
    fun hnone => (ofVisit_of_nothing hnone).symm ▸ Still.refl.moved
  cases hres with
  | exited hdead =>
    refine hnothing ?_
    cases he : k.residency.page? pid v with
    | none => rw [state?, he]; rfl
    | some e =>
      obtain ⟨p, hp, hreg, -⟩ := Residency.page?_eq_some_iff.1 he
      cases (hdead p hp).symm.trans (h.live_of_registered hp hreg)
  | outside hp hlive hv =>
    refine hnothing ?_
    rw [state?, Residency.page?_of_process hp (h.registered hp hlive), hv]
    rfl
  | there he hs =>
    refine hnothing ?_
    rw [state?, he, Option.map_some, hs]
    rfl
  | faulted _ _ he hs hin => exact hin.moved h he hs

/-! ## Visits -/

/-- Page `v` of process `pid` has been visited: it has been resolved, and what followed was of no
    account. -/
def Visited (c : Conduct σ) (pins : Frame → Nat) (pid : Pid) (v : Vpn) (k k' : Kernel σ) : Prop :=
  ∃ r k₁, Resolved c pins pid v k r k₁ ∧ Still k₁ k'

theorem Visited.still (h : Visited c pins pid v k k₁) (h' : Still k₁ k') :
    Visited c pins pid v k k' := by
  obtain ⟨r, k₀, hres, hstill⟩ := h
  exact ⟨r, k₀, hres, hstill.trans h'⟩

theorem Visited.moved (hvisit : Visited c pins pid v k k') (h : k.Sound pins none) :
    Moved (k.ofVisit k' pid v) k k' := by
  obtain ⟨r, k₁, hres, hstill⟩ := hvisit
  rw [ofVisit_congr hstill]
  exact (hres.moved h).still hstill

end Kernel

end DemandPaging
