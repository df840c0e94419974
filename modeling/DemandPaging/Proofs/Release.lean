/-
  Giving the pages of a process back keeps frames, slots and pages in agreement.

  An ending process gives its pages back one by one: the induction is on the pages that are
  left, and what has been given back counts as absent already, so that the agreement holds
  at every step (`Released`).

  The pages in frames and those in slots are counted on the way.  Counting does not change what
  is given back, but it stops where a count leaves its word (`releasePages_eq`), which it does
  unless the process is `Releasable`.
-/
import DemandPaging.Kernel.Lifecycle
import DemandPaging.Proofs.Slots
import DemandPaging.Proofs.Sound

namespace DemandPaging

/-! ## Giving pages back -/

namespace Residency

variable {pins : Frame → Nat} {r r' r'' : Residency} {slots slots' slots'' : SlotTable}
  {pid q : Pid} {v w n : Nat} {e : PageEntry} {f : Frame} {p : Process}

/-- The pages of process `pid` from number `n` up to `m` have been given back. -/
structure Released (pins : Frame → Nat) (pid : Pid) (n m : Vpn) (r : Residency) (slots₀ : SlotTable)
    (r' : Residency) (slots' : SlotTable) : Prop where
  coherent : r'.Coherent pins none
  slots : slots'.Coherent r'
  hand : r'.hand = r.hand
  size : r'.frames.size = r.frames.size
  page : ∀ q w, r'.page? q w =
    if q = pid ∧ n ≤ w ∧ w < m then (r.page? q w).map PageEntry.discarded else r.page? q w
  freed : ∀ w t, n ≤ w → w < m → (r.page? pid w).map (·.state) = some (.swapped t) →
    slots'.owner t = none
  kept : ∀ t, (∀ w, n ≤ w → w < m → (r.page? pid w).map (·.state) ≠ some (.swapped t)) →
    slots'.owner t = slots₀.owner t

theorem released_refl (h : r.Coherent pins none) (hslots : slots.Coherent r) :
    Released pins pid n n r slots r slots where
  coherent := h
  slots := hslots
  hand := rfl
  size := rfl
  page _ _ := (if_neg fun hq => Nat.not_lt.2 hq.2.1 hq.2.2).symm
  freed _ _ hlow hhigh := absurd hhigh (Nat.not_lt.2 hlow)
  kept _ _ := rfl

theorem Released.trans {m : Nat} (h : Released pins pid n v r slots r' slots')
    (h' : Released pins pid v m r' slots' r'' slots'') (hnv : n ≤ v) (hvm : v ≤ m) :
    Released pins pid n m r slots r'' slots'' := by
  -- the pages that are left are where they were
  have hleft : ∀ w, v ≤ w → r'.page? pid w = r.page? pid w := fun w hw =>
    (h.page pid w).trans (if_neg fun hin => Nat.not_lt.2 hw hin.2.2)
  refine ⟨h'.coherent, h'.slots, h'.hand.trans h.hand, h'.size.trans h.size, fun q w => ?_, ?_, ?_⟩
  · rw [h'.page, h.page]
    by_cases hhigh : q = pid ∧ v ≤ w ∧ w < m
    · rw [if_pos hhigh, if_neg fun hin => Nat.not_lt.2 hhigh.2.1 hin.2.2,
        if_pos ⟨hhigh.1, Nat.le_trans hnv hhigh.2.1, hhigh.2.2⟩]
    · rw [if_neg hhigh]
      by_cases hlow : q = pid ∧ n ≤ w ∧ w < v
      · rw [if_pos hlow, if_pos ⟨hlow.1, hlow.2.1, Nat.lt_of_lt_of_le hlow.2.2 hvm⟩]
      · rw [if_neg hlow, if_neg]
        rintro ⟨hq, hnw, hwm⟩
        rcases Nat.lt_or_ge w v with hlt | hge
        · exact hlow ⟨hq, hnw, hlt⟩
        · exact hhigh ⟨hq, hge, hwm⟩
  · intro w t hnw hwm hstate
    rcases Nat.lt_or_ge w v with hlt | hge
    · have hnone := h.freed w t hnw hlt hstate
      refine (h'.kept t fun w' _ _ hstate' => ?_).trans hnone
      cases hnone.symm.trans (h.slots t pid w' hstate')
    · exact h'.freed w t hge hwm (by rw [hleft w hge, hstate])
  · intro t hnot
    refine (h'.kept t fun w hvw hwm => ?_).trans (h.kept t fun w hnw hwv => ?_)
    · rw [hleft w hvw]
      exact hnot w (Nat.le_trans hnv hvw) hwm
    · exact hnot w hnw (Nat.lt_of_lt_of_le hwv hvm)

/-- No slot gets an owner. -/
theorem Released.owner_eq_some {m : Nat} {t : SlotIndex} {o : SlotOwner}
    (h : Released pins pid n m r slots r' slots') (ho : slots'.owner t = some o) :
    slots.owner t = some o := by
  refine (h.kept t fun w hlow hhigh hstate => ?_).symm.trans ho
  cases (h.freed w t hlow hhigh hstate).symm.trans ho

/-- One page is given back if it is gone, with the slot that it was in, and nothing else is. -/
theorem released_one (h : r'.Coherent pins none) (hslots : slots.Coherent r)
    (he : r.page? pid v = some e) (hhand : r'.hand = r.hand)
    (hsize : r'.frames.size = r.frames.size)
    (hpage : ∀ q w, r'.page? q w = if q = pid ∧ w = v then some e.discarded else r.page? q w)
    (howner : ∀ t, slots'.owner t = if e.state = .swapped t then none else slots.owner t) :
    Released pins pid v (v + 1) r slots r' slots' := by
  have hone : ∀ {w : Nat}, v ≤ w → w < v + 1 → w = v := fun hlow hhigh =>
    Nat.le_antisymm (Nat.lt_succ_iff.1 hhigh) hlow
  refine ⟨h, fun t q w hstate => ?_, hhand, hsize, fun q w => ?_, fun w t hlow hhigh hstate => ?_,
    fun t hnot => ?_⟩
  · rw [hpage] at hstate
    split at hstate
    · cases hstate
    · next hqw =>
      have hold := hslots t q w hstate
      rw [howner, if_neg, hold]
      intro hs
      have hown := hslots t pid v (by rw [he, Option.map_some, hs])
      cases hold.symm.trans hown
      exact hqw ⟨rfl, rfl⟩
  · rw [hpage]
    by_cases hqw : q = pid ∧ w = v
    · obtain ⟨rfl, rfl⟩ := hqw
      rw [if_pos ⟨rfl, rfl⟩, if_pos ⟨rfl, Nat.le_refl w, Nat.lt_succ_self w⟩, he, Option.map_some]
    · rw [if_neg hqw, if_neg fun hq => hqw ⟨hq.1, hone hq.2.1 hq.2.2⟩]
  · obtain rfl := hone hlow hhigh
    rw [he, Option.map_some] at hstate
    rw [howner, if_pos (Option.some.inj hstate)]
  · rw [howner, if_neg]
    intro hs
    exact hnot v (Nat.le_refl v) (Nat.lt_succ_self v) (by rw [he, Option.map_some, hs])

/-- A frame that a page gives back goes to the pool, or waits for its last pin. -/
theorem Coherent.freeOrDefer_resident (h : r.Coherent pins none) (he : r.page? pid v = some e)
    (hs : e.state = .resident f) :
    ∃ table, r.frames.freeOrDefer f = .ok table ∧ table.size = r.frames.size ∧
      ({ r.setEntry pid v e.discarded with frames := table } : Residency).Coherent pins none := by
  have hclean : e.readOnly = true → e.dirty = false := h.clean he
  have hinfo := (h.resident he hs).2
  have hunload : (r.link pid v e.discarded f (.unowned (pins f))).Coherent pins (some f) :=
    h.unload he hs (by simp [PageEntry.discarded]) rfl rfl hclean
  rcases Nat.eq_zero_or_pos (pins f) with hzero | hpos
  · have hr := hunload.giveBack hzero
    simp only [frames_link, FrameTable.put_put, FrameTable.pool_put] at hr
    exact ⟨_, FrameTable.freeOrDefer_eq hinfo hzero (h.notMem_pool he hs), FrameTable.size_put, hr⟩
  · have hr := hunload.defer hpos
    simp only [frames_link, FrameTable.put_put] at hr
    exact ⟨_, FrameTable.freeOrDefer_eq_of_pinned hinfo hpos, FrameTable.size_put, hr⟩

/-- What giving back a page does to frames and slots. -/
def giveBackPage (held : FrameTable × SlotTable) (entry : PageEntry) :
    Checked (FrameTable × SlotTable) := do
  match entry.state with
  | .resident frame => return (← held.1.freeOrDefer frame, held.2)
  | .swapped slot => return (held.1, ← held.2.deallocate slot)
  | .absent => return held

/-- One page gives its frame or its slot back. -/
theorem giveBackPage_eq (h : r.Coherent pins none) (hslots : slots.Coherent r)
    (he : r.page? pid v = some e) :
    ∃ r' slots', giveBackPage (r.frames, slots) e = .ok (r'.frames, slots') ∧
      Released pins pid v (v + 1) r slots r' slots' := by
  have hclean : e.readOnly = true → e.dirty = false := h.clean he
  have hset : ∀ q w, (r.setEntry pid v e.discarded).page? q w =
      if q = pid ∧ w = v then some e.discarded else r.page? q w := fun q w => page?_setEntry he
  cases hs : e.state with
  | absent =>
    have hsame : e.discarded = e := by
      rw [PageEntry.discarded, ← hs]
    refine ⟨r, slots, by rw [giveBackPage, hs]; rfl,
      released_one h hslots he rfl rfl (fun q w => ?_) fun t => by rw [hs, if_neg nofun]⟩
    split
    · next hqw => rw [hqw.1, hqw.2, he, hsame]
    · rfl
  | resident f =>
    obtain ⟨table, hfree, hsize, hcoh⟩ := h.freeOrDefer_resident he hs
    refine ⟨{ r.setEntry pid v e.discarded with frames := table }, slots, ?_,
      released_one hcoh hslots he hand_updateProcess hsize
        (fun q w => page?_frames.trans (hset q w)) fun t => by rw [hs, if_neg nofun]⟩
    rw [giveBackPage, hs]
    simp only [hfree]
    rfl
  | swapped s =>
    have hown : slots.owner s = some ⟨pid, v⟩ := hslots s pid v (by rw [he, Option.map_some, hs])
    obtain ⟨slots', hfree, hslots'⟩ := SlotTable.deallocate_eq hown
    have hcoh : (r.setEntry pid v e.discarded).Coherent pins none := by
      refine h.of_pages (h.toFormed.setEntry he rfl rfl hclean) frames_updateProcess
        hand_updateProcess fun {q w e₁ g} hs₁ => ?_
      rw [hset]
      split
      · next hqw =>
        rw [hqw.1, hqw.2, he]
        refine iff_of_false ?_ ?_
        · rintro ⟨⟩
          cases hs₁
        · rintro ⟨⟩
          cases hs.symm.trans hs₁
      · rfl
    refine ⟨r.setEntry pid v e.discarded, slots', ?_,
      released_one hcoh hslots he hand_updateProcess ?_ hset fun t => ?_⟩
    · rw [giveBackPage, hs, setEntry, frames_updateProcess]
      simp only [hfree]
      rfl
    · rw [setEntry, frames_updateProcess]
    · rw [hslots', hs]
      simp only [PageState.swapped.injEq, eq_comm]

/-- All pages that are left give their frames and slots back. -/
theorem giveBackPages_eq {es : List PageEntry} (h : r.Coherent pins none) (hslots : slots.Coherent r)
    (hes : ∀ j : Nat, r.page? pid (n + j) = es[j]?) :
    ∃ r' slots', es.foldlM giveBackPage (r.frames, slots) = .ok (r'.frames, slots') ∧
      Released pins pid n (n + es.length) r slots r' slots' := by
  induction es generalizing r slots n with
  | nil => exact ⟨r, slots, rfl, released_refl h hslots⟩
  | cons e rest ih =>
    obtain ⟨r₁, slots₁, hone, hreleased⟩ := giveBackPage_eq h hslots (hes 0)
    obtain ⟨r', slots', hall, hrest⟩ := ih (n := n + 1) hreleased.coherent hreleased.slots fun j => by
      rw [hreleased.page, if_neg fun hin => Nat.not_lt.2 (Nat.le_add_right _ j) hin.2.2,
        Nat.add_assoc, Nat.add_comm 1 j]
      exact hes (j + 1)
    refine ⟨r', slots', ?_, ?_⟩
    · rw [List.foldlM_cons, hone]
      exact hall
    · rw [List.length_cons, Nat.add_comm rest.length 1, ← Nat.add_assoc]
      exact hreleased.trans hrest (by omega) (by omega)

end Residency

/-! ## Counting them -/

/-- The number of pages of a process that are in frames. -/
def Process.residentPages (p : Process) : Nat := p.table.entries.countP (·.isValid)

/-- The number of pages of a process that are in slots. -/
def Process.swappedPages (p : Process) : Nat := p.table.entries.countP (·.state.isSwapped)

/-- The pages that a process has to give back can be counted. -/
structure Process.Releasable (p : Process) : Prop where
  resident : p.residentPages < limit31
  swapped : p.swappedPages < limit31

namespace Kernel

variable {held held' : FrameTable × SlotTable} {n m : Nat}

/-- What a page gives back is counted where it belongs. -/
theorem releasePage_eq {e : PageEntry} (hgive : Residency.giveBackPage held e = .ok held') :
    releasePage ⟨held.1, held.2, n, m⟩ e = match e.state with
      | .absent => .ok ⟨held'.1, held'.2, n, m⟩
      | .resident _ => (fun n => ⟨held'.1, held'.2, n, m⟩) <$> addBelow limit31 n 1
      | .swapped _ => (fun m => ⟨held'.1, held'.2, n, m⟩) <$> addBelow limit31 m 1 := by
  unfold Residency.giveBackPage at hgive
  unfold releasePage
  cases hs : e.state with
  | absent =>
    rw [hs] at hgive
    cases hgive
    rfl
  | resident f =>
    rw [hs] at hgive
    obtain ⟨frames, hfree, hdone⟩ := Checked.eq_ok_of_bind hgive
    cases hdone
    dsimp only
    rw [hfree]
    rfl
  | swapped s =>
    rw [hs] at hgive
    obtain ⟨slots, hfree, hdone⟩ := Checked.eq_ok_of_bind hgive
    cases hdone
    dsimp only
    rw [hfree]
    rfl

/-- Frames and slots that have been given back, if both counts stay in their words. -/
def counted (held : FrameTable × SlotTable) (frameCount slotCount : Nat) : Checked Holdings :=
  if frameCount < limit31 ∧ slotCount < limit31 then .ok ⟨held.1, held.2, frameCount, slotCount⟩
  else .error .overflow

/-- Counting changes nothing about what is given back, unless a count leaves its word.  The
    induction is on the pages that are left. -/
theorem foldlM_releasePage {es : List PageEntry}
    (hgive : es.foldlM Residency.giveBackPage held = .ok held') (hn : n < limit31)
    (hm : m < limit31) :
    es.foldlM releasePage ⟨held.1, held.2, n, m⟩ =
      counted held' (n + es.countP (·.isValid)) (m + es.countP (·.state.isSwapped)) := by
  induction es generalizing held n m with
  | nil =>
    cases hgive
    exact (if_pos ⟨hn, hm⟩).symm
  | cons e rest ih =>
    rw [List.foldlM_cons] at hgive ⊢
    obtain ⟨held₁, hone, hrest⟩ := Checked.eq_ok_of_bind hgive
    rw [releasePage_eq hone, List.countP_cons, List.countP_cons, PageEntry.isValid, PageEntry.frame]
    cases hs : e.state with
    | absent => exact ih hrest hn hm
    | resident f =>
      change _ = counted held' (n + (rest.countP (·.isValid) + 1)) (m + rest.countP (·.state.isSwapped))
      dsimp only
      rw [Nat.add_comm _ 1, ← Nat.add_assoc]
      by_cases hlt : n + 1 < limit31
      · rw [addBelow, if_pos hlt]
        exact ih hrest hlt hm
      · rw [addBelow, if_neg hlt, counted, if_neg (by omega)]
        rfl
    | swapped s =>
      change _ = counted held' (n + rest.countP (·.isValid)) (m + (rest.countP (·.state.isSwapped) + 1))
      dsimp only
      rw [Nat.add_comm _ 1, ← Nat.add_assoc m]
      by_cases hlt : m + 1 < limit31
      · rw [addBelow, if_pos hlt]
        exact ih hrest hn hlt
      · rw [addBelow, if_neg hlt, counted, if_neg (by omega)]
        rfl

/-- All pages of a process are given back, and can be counted if it is `Releasable`. -/
theorem releasePages_eq {pins : Frame → Nat} {r : Residency} {slots : SlotTable} {pid : Pid}
    {p : Process} (h : r.Coherent pins none) (hslots : slots.Coherent r)
    (hpages : ∀ j : Nat, r.page? pid j = p.table.entries.toList[j]?) :
    ∃ r' slots', releasePages p.table { frames := r.frames, slots } =
        counted (r'.frames, slots') p.residentPages p.swappedPages ∧
      Residency.Released pins pid 0 p.table.entries.toList.length r slots r' slots' := by
  obtain ⟨r', slots', hgive, hrel⟩ := Residency.giveBackPages_eq (n := 0) h hslots fun j => by
    rw [Nat.zero_add, hpages]
  rw [Nat.zero_add] at hrel
  refine ⟨r', slots', ?_, hrel⟩
  have hcount := foldlM_releasePage hgive (by decide : 0 < limit31) (by decide : 0 < limit31)
  rw [Nat.zero_add, Nat.zero_add] at hcount
  rw [Process.residentPages, Process.swappedPages, Row.countP_eq, Row.countP_eq]
  exact hcount

theorem counted_of_releasable {p : Process} (h : p.Releasable) :
    counted held p.residentPages p.swappedPages =
      .ok ⟨held.1, held.2, p.residentPages, p.swappedPages⟩ := if_pos ⟨h.resident, h.swapped⟩

theorem counted_of_not_releasable {p : Process} (h : ¬ p.Releasable) :
    counted held p.residentPages p.swappedPages = .error .overflow :=
  if_neg fun hboth => h ⟨hboth.1, hboth.2⟩

end Kernel

/-! ## The end of a process -/

/-- The process after its end: nothing is left of its pages, and its table is out of sight. -/
def Process.ended (p : Process) : Process :=
  { p with table := p.table.discarded, exited := true, registered := false }

theorem Process.readOnly_ended {p : Process} : p.ended.outline.readOnly = p.outline.readOnly := by
  simp only [outline, ended, PageTable.discarded, Row.toList_map, List.map_map]
  rfl

namespace Residency

variable {pins : Frame → Nat} {r r' : Residency} {slots slots' : SlotTable} {pid q : Pid}
  {v w : Vpn} {p : Process} {table : FrameTable}

/-- The residency once process `pid` has ended, with the frames it leaves. -/
def finish (r : Residency) (pid : Pid) (table : FrameTable) : Residency :=
  { r.updateProcess pid Process.ended with frames := table }

theorem retire_eq : retire { r.updateProcess pid fun p => { p with exited := true } with
    frames := table } pid = r.finish pid table := by
  cases pid with
  | zero => rfl
  | succ n =>
    simp only [retire, finish, updateProcess, List.modify_modify_eq, Residency.mk.injEq, true_and]
    congr 1
    funext o
    cases o <;> rfl

theorem process?_finish : (r.finish pid table).process? q =
    if q = pid then (r.process? q).map Process.ended else r.process? q := by
  rw [finish, processes_frames, process?_updateProcess]

theorem page?_finish : (r.finish pid table).page? q v = if q = pid then none else r.page? q v := by
  by_cases hq : q = pid
  · rw [if_pos hq, page?, table?, process?_finish, if_pos hq]
    cases r.process? q with
    | none => rfl
    | some p => rfl
  · rw [if_neg hq]
    exact page?_congr (process?_finish.trans (if_neg hq))

theorem outline?_finish_ne (hq : q ≠ pid) : (r.finish pid table).outline? q = r.outline? q := by
  rw [outline?, outline?, process?_finish, if_neg hq]

/-- What is known of a process that has ended. -/
theorem outline?_finish_self {o : Process.Outline} (ho : (r.finish pid table).outline? pid = some o) :
    ∃ o₀, r.outline? pid = some o₀ ∧ o = { o₀ with exited := true, registered := false } := by
  rw [outline?, process?_finish, if_pos rfl, Option.map_map] at ho
  obtain ⟨p, hp, rfl⟩ := Option.map_eq_some_iff.1 ho
  refine ⟨p.outline, by rw [outline?, hp, Option.map_some], ?_⟩
  have hro : p.ended.outline.readOnly = p.outline.readOnly := Process.readOnly_ended
  rw [Function.comp, ← hro]
  rfl

theorem Formed.finish (h : r.Formed) : (r.finish pid table).Formed := by
  have hpage : ∀ {q w e}, (r.finish pid table).page? q w = some e → r.page? q w = some e := by
    intro q w e he
    rw [page?_finish] at he
    split at he
    · cases he
    · exact he
  refine ⟨fun he => h.numbered (hpage he), fun he => h.clean (hpage he), ?_, ?_, ?_⟩
  · intro q o ho
    by_cases hq : q = pid
    · subst hq
      obtain ⟨o₀, -, rfl⟩ := outline?_finish_self ho
      rfl
    · exact h.live ((outline?_finish_ne hq).symm.trans ho)
  · intro q o ho
    by_cases hq : q = pid
    · subst hq
      obtain ⟨o₀, ho₀, rfl⟩ := outline?_finish_self ho
      have hsized : o₀.numPages = o₀.readOnly.length := h.sized ho₀
      exact hsized
    · exact h.sized ((outline?_finish_ne hq).symm.trans ho)
  · intro q p hp hreg e he
    rw [process?_finish] at hp
    split at hp
    · obtain ⟨p₀, -, rfl⟩ := Option.map_eq_some_iff.1 hp
      rw [Process.ended, PageTable.discarded, Row.toList_map] at he
      obtain ⟨e₀, -, rfl⟩ := List.mem_map.1 he
      rfl
    · exact h.gone hp hreg e he

/-- Once all pages of a process have been given back, it may end. -/
theorem Released.finish (h : r.Coherent pins none) (hp : r.process? pid = some p)
    (hreg : p.registered = true)
    (hrel : Released pins pid 0 p.table.entries.toList.length r slots r' slots') :
    (r.finish pid r'.frames).Coherent pins none := by
  refine hrel.coherent.of_pages h.toFormed.finish rfl (hand_updateProcess.trans hrel.hand.symm) ?_
  intro q w e f hs
  rw [page?_finish, hrel.page]
  by_cases hq : q = pid
  · subst hq
    rw [if_pos rfl, page?_of_process hp hreg]
    refine iff_of_false (by simp) fun he => ?_
    split at he
    · obtain ⟨e₀, -, rfl⟩ := Option.map_eq_some_iff.1 he
      cases hs
    · next hout => exact hout ⟨rfl, Nat.zero_le w, PageTable.lt_length he⟩
  · rw [if_neg hq, if_neg fun hin => hq hin.1]

theorem Released.finish_slots {m : Nat} (hrel : Released pins pid 0 m r slots r' slots') :
    (slots'.deallocateOwnedBy pid).2.Coherent (r.finish pid table) := by
  intro s q w hstate
  rw [page?_finish] at hstate
  split at hstate
  · cases hstate
  · next hq =>
    have hstate' : (r'.page? q w).map (·.state) = some (.swapped s) := by
      rw [hrel.page, if_neg fun hin => hq hin.1, hstate]
    rw [SlotTable.owner_deallocateOwnedBy, hrel.slots s q w hstate', Option.filter_some,
      if_pos (by simpa using hq)]

end Residency

end DemandPaging
