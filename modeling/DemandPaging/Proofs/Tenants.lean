/-
  What a copy says about its frame, and which page hears of it.

  When a copy is written back, what is left of it is a report: its frame has been used, or
  written to.  The page that the copy names does not count.  `tenant?` is the page that the
  frame table records for a frame, provided it is in fact there, and the report goes to it
  (`reconcile_eq`).

  Nothing is assumed of the residency but that pages carry their own numbers.  Several
  frames may name one page, and frames may name pages that are elsewhere or processes that
  are gone.  Even so a page is the tenant of one frame only (`frame_eq`), which is why
  reports on different frames do not meet (`tenant?_hear`, `hear_comm`).
-/
import DemandPaging.Proofs.Reconcile

namespace DemandPaging

/-! ## Reports -/

/-- What a valid copy says about its frame. -/
structure Report where
  frame : Frame
  used : Bool
  dirty : Bool
deriving DecidableEq, Repr

/-- The report of a copy, if it is valid. -/
def Mapping.report? (m : Mapping) : Option Report :=
  if m.valid then some ⟨m.ppn, m.used, m.dirty⟩ else none

/-- The reports of copies, in their order. -/
def reports (copies : List Mapping) : List Report := copies.filterMap Mapping.report?

section Reports

variable {copies : List Mapping} {m : Mapping} {x : Report}

theorem Mapping.report?_eq_some_iff :
    m.report? = some x ↔ m.valid = true ∧ x = ⟨m.ppn, m.used, m.dirty⟩ := by
  unfold report?
  split
  · simp [*, eq_comm]
  · simp [*]

theorem mem_reports_iff :
    x ∈ reports copies ↔ ∃ m ∈ copies, m.valid = true ∧ x = ⟨m.ppn, m.used, m.dirty⟩ := by
  simp only [reports, List.mem_filterMap, Mapping.report?_eq_some_iff]

theorem usedIn_reports {f : Frame} :
    usedIn copies f = (reports copies).any fun x => x.frame == f && x.used := by
  rw [usedIn, reports, List.any_filterMap]
  congr 1
  funext m
  cases hv : m.valid <;> simp [Mapping.report?, hv]

theorem dirtyIn_reports {f : Frame} :
    dirtyIn copies f = (reports copies).any fun x => x.frame == f && x.dirty := by
  rw [dirtyIn, reports, List.any_filterMap]
  congr 1
  funext m
  cases hv : m.valid <;> simp [Mapping.report?, hv]

end Reports

/-! ## Tenants -/

/-- A page in a frame: its process and entry, and the record of the frame. -/
structure Tenancy where
  frame : Frame
  pid : Pid
  entry : PageEntry
  info : FrameInfo
deriving DecidableEq, Repr

/-- The entry with the bits of a report added. -/
def PageEntry.hear (e : PageEntry) (x : Report) : PageEntry :=
  { e with used := e.used || x.used, dirty := e.dirty || x.dirty }

theorem PageEntry.hear_comm (e : PageEntry) (x y : Report) :
    (e.hear x).hear y = (e.hear y).hear x := by
  simp only [hear, Bool.or_right_comm]

theorem PageEntry.hear_hear (e : PageEntry) (x : Report) : (e.hear x).hear x = e.hear x := by
  simp only [hear, Bool.or_assoc, Bool.or_self]

/-- The entry `e'` is `e` with bits turned on, and none turned off. -/
def PageEntry.Gains (e e' : PageEntry) : Prop :=
  e' = { e with used := e.used || e'.used, dirty := e.dirty || e'.dirty }

theorem PageEntry.Gains.trans {e e' e'' : PageEntry} (h : e.Gains e') (h' : e'.Gains e'') :
    e.Gains e'' := by
  unfold PageEntry.Gains at *
  rw [h', h]
  simp [Bool.or_assoc]

/-- A bit that is on stays on. -/
theorem PageEntry.Gains.kept {e e' : PageEntry} (h : e.Gains e') :
    (e.used = true → e'.used = true) ∧ (e.dirty = true → e'.dirty = true) := by
  unfold PageEntry.Gains at h
  constructor
  · intro hu
    rw [h, hu]
    rfl
  · intro hd
    rw [h, hd]
    rfl

theorem PageEntry.gains_hear (e : PageEntry) (x : Report) : e.Gains (e.hear x) := by
  simp [PageEntry.Gains, hear]

/-- A report on the frame goes to the entry of its page, which is recorded for the frame. -/
def Tenancy.hear (t : Tenancy) (x : Report) : Tenancy :=
  if x.frame = t.frame then
    { t with
      entry := t.entry.hear x
      info := { t.info with mapping := (t.entry.hear x).mapping } }
  else t

namespace Tenancy

variable {t : Tenancy} {x y : Report} {xs : List Report}

theorem hear_of_ne (h : x.frame ≠ t.frame) : t.hear x = t := if_neg h

@[simp] theorem frame_hear : (t.hear x).frame = t.frame := by unfold hear; split <;> rfl

@[simp] theorem pid_hear : (t.hear x).pid = t.pid := by unfold hear; split <;> rfl

@[simp] theorem vpn_hear : (t.hear x).entry.vpn = t.entry.vpn := by unfold hear; split <;> rfl

@[simp] theorem state_hear : (t.hear x).entry.state = t.entry.state := by unfold hear; split <;> rfl

theorem hear_comm : (t.hear x).hear y = (t.hear y).hear x := by
  by_cases hx : x.frame = t.frame <;> by_cases hy : y.frame = t.frame
  · simp only [hear, hx, hy, if_true, PageEntry.hear_comm t.entry x y]
  · simp only [hear, hx, hy, if_true, if_false]
  · simp only [hear, hx, hy, if_true, if_false]
  · simp only [hear, hx, hy, if_false]

theorem hear_hear : (t.hear x).hear x = t.hear x := by
  by_cases hx : x.frame = t.frame
  · simp only [hear, hx, if_true, PageEntry.hear_hear]
  · simp only [hear, hx, if_false]

/-- The bits of all reports on the frame go to the entry. -/
theorem entry_foldl_hear : (xs.foldl hear t).entry =
    { t.entry with
      used := t.entry.used || xs.any fun x => x.frame == t.frame && x.used
      dirty := t.entry.dirty || xs.any fun x => x.frame == t.frame && x.dirty } := by
  induction xs generalizing t with
  | nil => simp
  | cons x xs ih =>
    rw [List.foldl_cons, ih]
    by_cases hx : x.frame = t.frame
    · simp [hear, hx, PageEntry.hear, Bool.or_assoc]
    · have hbeq : (x.frame == t.frame) = false := beq_eq_false_iff_ne.2 hx
      simp [hear, hx, hbeq]

/-- Reports change the entry, and of the record the mapping. -/
theorem foldl_hear_eq : xs.foldl hear t =
    { t with
      entry := (xs.foldl hear t).entry
      info := { t.info with mapping := (xs.foldl hear t).info.mapping } } := by
  induction xs generalizing t with
  | nil => rfl
  | cons x xs ih =>
    rw [List.foldl_cons, ih]
    unfold hear
    split <;> rfl

/-- A frame whose reports say nothing new has the mapping of its page recorded. -/
theorem mapping_eq_of_hear (h : t.hear x = t) (hx : x.frame = t.frame) :
    t.info.mapping = t.entry.mapping := by
  have hentry : t.entry.hear x = t.entry := by
    rw [hear, if_pos hx] at h
    exact congrArg entry h
  rw [hear, if_pos hx, hentry] at h
  exact (congrArg (fun t => t.info.mapping) h).symm

end Tenancy

namespace Residency

/-- The page that the record of a frame names, if it is in this very frame. -/
def tenant? (r : Residency) (f : Frame) : Option Tenancy := do
  let info ← r.frames.info? f
  let pid ← info.owner
  let entry ← r.page? pid info.mapping.vpn
  if entry.state = .resident f then some ⟨f, pid, entry, info⟩ else none

/-- The pages of all registered processes carry their numbers. -/
def Numbered (r : Residency) : Prop := ∀ pid v e, r.page? pid v = some e → e.vpn = v

/-- A report goes to the tenant of its frame, if there is one. -/
def hear (r : Residency) (x : Report) : Residency :=
  match r.tenant? x.frame with
  | none => r
  | some t => r.link t.pid t.entry.vpn (t.hear x).entry t.frame (t.hear x).info

variable {r : Residency} {pid : Pid} {v : Vpn} {e : PageEntry} {f g : Frame} {i : FrameInfo}
  {t : Tenancy} {x y : Report} {m : Mapping}

theorem tenant?_eq_some_iff :
    r.tenant? f = some t ↔
      t.frame = f ∧ r.frames.info? f = some t.info ∧ t.info.owner = some t.pid ∧
        r.page? t.pid t.info.mapping.vpn = some t.entry ∧ t.entry.state = .resident f := by
  simp only [tenant?, Option.bind_eq_bind, Option.bind_eq_some_iff]
  constructor
  · rintro ⟨i, hi, q, hq, e, he, ht⟩
    split at ht
    · next hs =>
      cases ht
      exact ⟨rfl, hi, hq, he, hs⟩
    · cases ht
  · rintro ⟨rfl, hi, hq, he, hs⟩
    exact ⟨t.info, hi, t.pid, hq, t.entry, he, if_pos hs⟩

/-- A tenant carries the number that its frame records. -/
theorem Numbered.vpn_eq (hn : r.Numbered) (ht : r.tenant? f = some t) :
    t.info.mapping.vpn = t.entry.vpn := by
  obtain ⟨-, -, -, he, -⟩ := tenant?_eq_some_iff.1 ht
  exact (hn _ _ _ he).symm

theorem Numbered.page?_tenant (hn : r.Numbered) (ht : r.tenant? f = some t) :
    r.page? t.pid t.entry.vpn = some t.entry := by
  obtain ⟨-, -, -, he, -⟩ := tenant?_eq_some_iff.1 ht
  rwa [← hn.vpn_eq ht]

/-- A page is the tenant of one frame only, whatever the records say. -/
theorem Numbered.frame_eq {u : Tenancy} (hn : r.Numbered) (ht : r.tenant? f = some t)
    (hu : r.tenant? g = some u) (hpage : u.pid = t.pid ∧ u.entry.vpn = t.entry.vpn) : g = f := by
  have he := hn.page?_tenant ht
  have he' := hn.page?_tenant hu
  rw [hpage.1, hpage.2, he] at he'
  obtain ⟨-, -, -, -, hs⟩ := tenant?_eq_some_iff.1 ht
  obtain ⟨-, -, -, -, hs'⟩ := tenant?_eq_some_iff.1 hu
  rw [← Option.some.inj he', hs] at hs'
  exact (PageState.resident.inj hs').symm

/-! ## One copy -/

/-- Only the table of a tenant takes the bits of a copy. -/
theorem merge_eq_none (hi : r.frames.info? f = some i) (ho : i.owner = some pid)
    (hnone : r.tenant? f = none) : (r.table? pid).bind (·.merge i.mapping.vpn f m) = none := by
  rw [Option.eq_none_iff_forall_ne_some]
  intro merged hmerged
  obtain ⟨table, htable, hmerge⟩ := Option.bind_eq_some_iff.1 hmerged
  obtain ⟨e, he, -⟩ := Option.map_eq_some_iff.1 hmerge
  obtain ⟨hentry, hs⟩ := Option.filter_eq_some_iff.1 he
  have hpage : r.page? pid i.mapping.vpn = some e := by rw [page?, htable]; exact hentry
  have ht : r.tenant? f = some ⟨f, pid, e, i⟩ :=
    tenant?_eq_some_iff.2 ⟨rfl, hi, ho, hpage, by simpa using hs⟩
  rw [hnone] at ht
  cases ht

/-- To write a copy back is to hear its report. -/
theorem Numbered.reconcile_eq (hn : r.Numbered) (hf : m.valid = true → m.ppn < r.frames.size) :
    r.reconcile m = .ok (m.report?.elim r r.hear) := by
  unfold reconcile Mapping.report?
  cases hv : m.valid with
  | false => rfl
  | true =>
    obtain ⟨i, hi⟩ := FrameTable.lt_size_iff.1 (hf hv)
    simp only [Bool.not_true, Bool.false_eq_true, if_false, if_true, Option.elim_some, bind,
      Except.bind, FrameTable.lookup_eq hi, hear]
    cases ht : r.tenant? m.ppn with
    | none =>
      cases ho : i.owner with
      | none => rfl
      | some q =>
        simp only [merge_eq_none hi ho ht]
        rfl
    | some t =>
      obtain ⟨hframe, hi', ho, he, hs⟩ := tenant?_eq_some_iff.1 ht
      obtain rfl := Option.some.inj (hi.symm.trans hi')
      obtain ⟨p, hp, hreg, hentry⟩ := page?_eq_some_iff.1 he
      have htable : r.table? t.pid = some p.table := table?_eq_some_iff.2 ⟨p, hp, hreg, rfl⟩
      rw [hn.vpn_eq ht] at hentry
      have hmerge : p.table.merge t.entry.vpn m.ppn m =
          some (t.entry.merge m, p.table.set t.entry.vpn (t.entry.merge m)) := by
        rw [PageTable.merge, PageTable.residentIn_eq hentry hs, Option.map_some]
      simp only [ho, htable, Option.bind_some, hmerge, FrameTable.record_eq hi, setTable_eq htable,
        Tenancy.hear, hframe, if_true, hn.vpn_eq ht]
      rfl

/-! ## One report -/

theorem hear_of_none (ht : r.tenant? x.frame = none) : r.hear x = r := by
  rw [hear, ht]

theorem hear_of_some (ht : r.tenant? x.frame = some t) :
    r.hear x = r.link t.pid t.entry.vpn (t.hear x).entry t.frame (t.hear x).info := by
  rw [hear, ht]

/-- A link of a page and its frame does not touch the tenants of other frames. -/
theorem tenant?_link {e' : PageEntry} (he : r.page? pid v = some e) (hs : e.state = .resident f)
    (hs' : e'.state = .resident f) (hg : g ≠ f) :
    (r.link pid v e' f i).tenant? g = r.tenant? g := by
  have hpage : ∀ q w d, d.state = .resident g →
      ((r.link pid v e' f i).page? q w = some d ↔ r.page? q w = some d) := by
    intro q w d hd
    rw [page?_link he]
    split
    · next hqw =>
      obtain ⟨rfl, rfl⟩ := hqw
      rw [he]
      constructor
      · rintro ⟨⟩
        exact absurd (PageState.resident.inj (hd.symm.trans hs')) hg
      · rintro ⟨⟩
        exact absurd (PageState.resident.inj (hd.symm.trans hs)) hg
    · rfl
  ext u
  rw [tenant?_eq_some_iff, tenant?_eq_some_iff, frames_link, FrameTable.info?_put_ne hg]
  constructor
  · rintro ⟨hf, hi, ho, hu, hs⟩
    exact ⟨hf, hi, ho, (hpage _ _ _ hs).1 hu, hs⟩
  · rintro ⟨hf, hi, ho, hu, hs⟩
    exact ⟨hf, hi, ho, (hpage _ _ _ hs).2 hu, hs⟩

/-- What a report does to the tenants of all frames. -/
theorem Numbered.tenant?_hear (hn : r.Numbered) :
    (r.hear x).tenant? g = (r.tenant? g).map (·.hear x) := by
  have hother (h : r.tenant? x.frame = none ∨ g ≠ x.frame) :
      (r.tenant? g).map (·.hear x) = r.tenant? g := by
    cases hu : r.tenant? g with
    | none => rfl
    | some u =>
      obtain ⟨hframe, -⟩ := tenant?_eq_some_iff.1 hu
      have hne : x.frame ≠ u.frame := by
        rintro hx
        rw [hx, hframe, hu] at h
        simp at h
      rw [Option.map_some, Tenancy.hear, if_neg hne]
  cases ht : r.tenant? x.frame with
  | none => rw [hear_of_none ht, hother (.inl ht)]
  | some t =>
    obtain ⟨hframe, hi, ho, he, hs⟩ := tenant?_eq_some_iff.1 ht
    have he' := hn.page?_tenant ht
    rw [hear_of_some ht]
    by_cases hg : g = x.frame
    · subst hg
      rw [ht, Option.map_some, tenant?_eq_some_iff, frames_link, Tenancy.hear, if_pos hframe.symm]
      refine ⟨hframe, ?_, ho, page?_link_self he', hs⟩
      rw [hframe, FrameTable.info?_put_self hi]
    · rw [hother (.inr hg)]
      exact tenant?_link he' (hframe ▸ hs) (by simpa [hframe] using hs) (hframe ▸ hg)

theorem Numbered.hear (hn : r.Numbered) : (r.hear x).Numbered := by
  cases ht : r.tenant? x.frame with
  | none => rwa [hear_of_none ht]
  | some t =>
    rw [hear_of_some ht]
    intro q w d hd
    rw [page?_link (hn.page?_tenant ht)] at hd
    split at hd
    · next hqw =>
      obtain ⟨-, rfl⟩ := hqw
      cases hd
      exact Tenancy.vpn_hear
    · exact hn q w d hd

/-- Two reports may change places. -/
theorem Numbered.hear_comm (hn : r.Numbered) : (r.hear x).hear y = (r.hear y).hear x := by
  cases hx : r.tenant? x.frame with
  | none =>
    have hx' : (r.hear y).tenant? x.frame = none := by rw [hn.tenant?_hear, hx, Option.map_none]
    rw [hear_of_none hx, hear_of_none hx']
  | some t =>
    cases hy : r.tenant? y.frame with
    | none =>
      have hy' : (r.hear x).tenant? y.frame = none := by rw [hn.tenant?_hear, hy, Option.map_none]
      rw [hear_of_none hy, hear_of_none hy']
    | some u =>
      have hx' : (r.hear y).tenant? x.frame = some (t.hear y) := by
        rw [hn.tenant?_hear, hx, Option.map_some]
      have hy' : (r.hear x).tenant? y.frame = some (u.hear x) := by
        rw [hn.tenant?_hear, hy, Option.map_some]
      obtain ⟨htf, -⟩ := tenant?_eq_some_iff.1 hx
      obtain ⟨huf, -⟩ := tenant?_eq_some_iff.1 hy
      rw [hear_of_some hx', hear_of_some hy', hear_of_some hx, hear_of_some hy]
      by_cases hxy : x.frame = y.frame
      · obtain rfl : t = u := Option.some.inj (hx.symm.trans (hxy ▸ hy))
        simp only [Tenancy.pid_hear, Tenancy.vpn_hear, Tenancy.frame_hear, link_link, t.hear_comm]
      · have hpage : ¬ (u.pid = t.pid ∧ u.entry.vpn = t.entry.vpn) := fun h =>
          hxy (hn.frame_eq hx hy h).symm
        have hframes : u.frame ≠ t.frame := by rw [htf, huf]; exact Ne.symm hxy
        have ht : t.hear y = t := Tenancy.hear_of_ne (by rw [← huf]; exact hframes)
        have hu : u.hear x = u := Tenancy.hear_of_ne (by rw [← htf]; exact hframes.symm)
        rw [ht, hu]
        exact link_comm hpage hframes

/-- A report that has been heard says nothing new. -/
theorem Numbered.hear_hear (hn : r.Numbered) : (r.hear x).hear x = r.hear x := by
  cases hx : r.tenant? x.frame with
  | none => rw [hear_of_none hx, hear_of_none hx]
  | some t =>
    have hx' : (r.hear x).tenant? x.frame = some (t.hear x) := by
      rw [hn.tenant?_hear, hx, Option.map_some]
    rw [hear_of_some hx', hear_of_some hx]
    simp only [Tenancy.pid_hear, Tenancy.vpn_hear, Tenancy.frame_hear, link_link,
      Tenancy.hear_hear]

/-! ## What a report leaves alone -/

/-- The residency `r'` is `r` with bits turned on, in entries and in the mappings recorded for
    frames.  Nothing else has changed. -/
structure Gains (r r' : Residency) : Prop where
  pool : r'.frames.pool = r.frames.pool
  size : r'.frames.size = r.frames.size
  hand : r'.hand = r.hand
  nextPid : r'.nextPid = r.nextPid
  outline : ∀ pid, r'.outline? pid = r.outline? pid
  record : ∀ f i, r.frames.info? f = some i →
    ∃ m, r'.frames.info? f = some { i with mapping := m }
  entry : ∀ pid v e, r.listed? pid v = some e → ∃ e', r'.listed? pid v = some e' ∧ e.Gains e'

theorem Gains.refl : r.Gains r where
  pool := rfl
  size := rfl
  hand := rfl
  nextPid := rfl
  outline := fun _ => rfl
  record := fun _ i hi => ⟨i.mapping, hi⟩
  entry := fun _ _ e he => ⟨e, he, by simp [PageEntry.Gains]⟩

theorem Gains.trans {r' r'' : Residency} (h : r.Gains r') (h' : r'.Gains r'') : r.Gains r'' where
  pool := h'.pool.trans h.pool
  size := h'.size.trans h.size
  hand := h'.hand.trans h.hand
  nextPid := h'.nextPid.trans h.nextPid
  outline := fun pid => (h'.outline pid).trans (h.outline pid)
  record := by
    intro f i hi
    obtain ⟨m, hm⟩ := h.record f i hi
    obtain ⟨m', hm'⟩ := h'.record f _ hm
    exact ⟨m', hm'⟩
  entry := by
    intro pid v e he
    obtain ⟨e', he', hgain⟩ := h.entry pid v e he
    obtain ⟨e'', he'', hgain'⟩ := h'.entry pid v e' he'
    exact ⟨e'', he'', hgain.trans hgain'⟩

theorem Numbered.gains_hear (hn : r.Numbered) : r.Gains (r.hear x) := by
  cases ht : r.tenant? x.frame with
  | none =>
    rw [hear_of_none ht]
    exact .refl
  | some t =>
    obtain ⟨hframe, hi, -, -, -⟩ := tenant?_eq_some_iff.1 ht
    have he := hn.page?_tenant ht
    have hhear : t.hear x = { t with
        entry := t.entry.hear x
        info := { t.info with mapping := (t.entry.hear x).mapping } } := if_pos hframe.symm
    rw [hear_of_some ht, hhear]
    refine ⟨rfl, by simp, by simp, by simp, fun _ => outline?_link he rfl, ?_, ?_⟩
    · intro f i hf
      rw [frames_link, hframe, FrameTable.info?_put hi]
      split
      · next hfx =>
        rw [hfx, hi] at hf
        cases hf
        exact ⟨_, rfl⟩
      · exact ⟨i.mapping, hf⟩
    · intro q w e hw
      rw [listed?_link he]
      split
      · next hqw =>
        rw [hqw.1, hqw.2, listed?_of_page? he] at hw
        cases hw
        exact ⟨_, rfl, t.entry.gains_hear x⟩
      · exact ⟨e, hw, by simp [PageEntry.Gains]⟩

/-- Only the entry of the tenant changes. -/
theorem Numbered.listed?_hear (hn : r.Numbered) : (r.hear x).listed? pid v = r.listed? pid v ∨
    ∃ t, r.tenant? x.frame = some t ∧ t.pid = pid ∧ t.entry.vpn = v := by
  cases ht : r.tenant? x.frame with
  | none => exact .inl (by rw [hear_of_none ht])
  | some t =>
    rw [hear_of_some ht, listed?_link (hn.page?_tenant ht)]
    by_cases hpage : pid = t.pid ∧ v = t.entry.vpn
    · exact .inr ⟨t, rfl, hpage.1.symm, hpage.2.symm⟩
    · exact .inl (if_neg hpage)

/-- Only the record of a frame with a tenant changes. -/
theorem info?_hear : (r.hear x).frames.info? f = r.frames.info? f ∨
    x.frame = f ∧ ∃ t, r.tenant? f = some t := by
  cases ht : r.tenant? x.frame with
  | none => exact .inl (by rw [hear_of_none ht])
  | some t =>
    by_cases hf : f = x.frame
    · exact .inr ⟨hf.symm, t, hf ▸ ht⟩
    · obtain ⟨hframe, -⟩ := tenant?_eq_some_iff.1 ht
      rw [hear_of_some ht, frames_link, FrameTable.info?_put_ne (hframe ▸ hf)]
      exact .inl rfl

end Residency

end DemandPaging
