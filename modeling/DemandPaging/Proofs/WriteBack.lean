/-
  Copies written back in any order.

  Copies are written back when the TLB is flushed, when its bits are gathered for the clock,
  when a page is evicted and when a slot is used again, in orders that have nothing to do with
  each other.  `WrittenBack` says why this is harmless, also for frames and pages whose
  records do not fit together.

  * `hearAll` is what the reports of all copies do, `reconcileAll_eq` says that it is what
    `reconcileAll` does;
  * reports commute and repeat themselves (`hearAll_perm`, `hear_of_mem`);
  * `reconcileAll_writtenBack` is about the copies themselves.
-/
import DemandPaging.Proofs.Tenants

namespace DemandPaging.Residency

variable {r : Residency} {pid : Pid} {v : Vpn} {f : Frame} {t : Tenancy} {x : Report}
  {xs ys : List Report} {copies : List Mapping}

/-- Reports heard one after the other. -/
def hearAll (r : Residency) (xs : List Report) : Residency := xs.foldl hear r

/-! ## All reports -/

theorem Numbered.hearAll (hn : r.Numbered) : (r.hearAll xs).Numbered := by
  induction xs generalizing r with
  | nil => exact hn
  | cons x xs ih => exact ih hn.hear

theorem Numbered.gains_hearAll (hn : r.Numbered) : r.Gains (r.hearAll xs) := by
  induction xs generalizing r with
  | nil => exact .refl
  | cons x xs ih => exact hn.gains_hear.trans (ih hn.hear)

theorem Numbered.tenant?_hearAll (hn : r.Numbered) :
    (r.hearAll xs).tenant? f = (r.tenant? f).map fun t => xs.foldl Tenancy.hear t := by
  induction xs generalizing r with
  | nil => exact Option.map_id'.symm
  | cons x xs ih =>
    rw [Residency.hearAll, List.foldl_cons, ← Residency.hearAll, ih hn.hear, hn.tenant?_hear,
      Option.map_map]
    rfl

theorem Numbered.listed?_hearAll (hn : r.Numbered) :
    (r.hearAll xs).listed? pid v = r.listed? pid v ∨
      ∃ x ∈ xs, ∃ t, r.tenant? x.frame = some t ∧ t.pid = pid ∧ t.entry.vpn = v := by
  induction xs generalizing r with
  | nil => exact .inl rfl
  | cons x xs ih =>
    rcases ih hn.hear with hrest | ⟨y, hy, u, hu, hpage⟩
    · have hone : (r.hear x).listed? pid v = r.listed? pid v ∨ _ := hn.listed?_hear
      rcases hone with hx | ⟨t, ht, hpage⟩
      · exact .inl (hrest.trans hx)
      · exact .inr ⟨x, List.mem_cons_self, t, ht, hpage⟩
    · rw [hn.tenant?_hear] at hu
      obtain ⟨t, ht, rfl⟩ := Option.map_eq_some_iff.1 hu
      exact .inr ⟨y, List.mem_cons_of_mem x hy, t, ht, by simpa using hpage⟩

theorem Numbered.info?_hearAll (hn : r.Numbered) :
    (r.hearAll xs).frames.info? f = r.frames.info? f ∨
      (∃ x ∈ xs, x.frame = f) ∧ ∃ t, r.tenant? f = some t := by
  induction xs generalizing r with
  | nil => exact .inl rfl
  | cons x xs ih =>
    rcases ih hn.hear with hrest | ⟨⟨y, hy, hf⟩, u, hu⟩
    · have hone : (r.hear x).frames.info? f = r.frames.info? f ∨ _ := info?_hear
      rcases hone with hx | ⟨hf, ht⟩
      · exact .inl (hrest.trans hx)
      · exact .inr ⟨⟨x, List.mem_cons_self, hf⟩, ht⟩
    · rw [hn.tenant?_hear] at hu
      obtain ⟨t, ht, -⟩ := Option.map_eq_some_iff.1 hu
      exact .inr ⟨⟨y, List.mem_cons_of_mem x hy, hf⟩, t, ht⟩

/-- The order of reports does not matter. -/
theorem Numbered.hearAll_perm (hn : r.Numbered) (hp : xs.Perm ys) :
    r.hearAll xs = r.hearAll ys := by
  induction hp generalizing r with
  | nil => rfl
  | cons x _ ih => exact ih hn.hear
  | swap x y zs => exact congrArg (Residency.hearAll · zs) hn.hear_comm
  | trans _ _ ih ih' => exact (ih hn).trans (ih' hn)

theorem Numbered.hear_hearAll (hn : r.Numbered) :
    (r.hearAll xs).hear x = (r.hear x).hearAll xs := by
  have hp : (xs ++ [x]).Perm (x :: xs) := List.perm_append_singleton x xs
  have hswap := hn.hearAll_perm hp
  rwa [Residency.hearAll, List.foldl_append] at hswap

/-- A report that is among those that have been heard says nothing new. -/
theorem Numbered.hear_of_mem (hn : r.Numbered) (hx : x ∈ xs) :
    (r.hearAll xs).hear x = r.hearAll xs := by
  induction xs generalizing r with
  | nil => cases hx
  | cons y ys ih =>
    rcases List.mem_cons.1 hx with rfl | hx
    · show ((r.hear x).hearAll ys).hear x = (r.hear x).hearAll ys
      rw [hn.hear.hear_hearAll, hn.hear_hear]
    · exact ih hn.hear hx

theorem Numbered.hearAll_of_subset (hn : r.Numbered) (hsub : ys ⊆ xs) :
    (r.hearAll xs).hearAll ys = r.hearAll xs := by
  induction ys with
  | nil => rfl
  | cons y ys ih =>
    show ((r.hearAll xs).hear y).hearAll ys = r.hearAll xs
    rw [hn.hear_of_mem (hsub List.mem_cons_self)]
    exact ih fun x hx => hsub (List.mem_cons_of_mem y hx)

/-- To write copies back is to hear their reports. -/
theorem Numbered.reconcileAll_eq (hn : r.Numbered)
    (hf : ∀ x ∈ reports copies, x.frame < r.frames.size) :
    r.reconcileAll copies = .ok (r.hearAll (reports copies)) := by
  induction copies generalizing r with
  | nil => rfl
  | cons m rest ih =>
    have hm : m.valid = true → m.ppn < r.frames.size := fun hv =>
      hf _ (mem_reports_iff.2 ⟨m, List.mem_cons_self, hv, rfl⟩)
    have hfirst : r.reconcileAll (m :: rest) =
        (Except.ok (m.report?.elim r r.hear) : Checked Residency) >>= (reconcileAll · rest) := by
      rw [reconcileAll, List.foldlM_cons, hn.reconcile_eq hm]
      rfl
    rw [hfirst]
    cases hx : m.report? with
    | none =>
      have hreports : reports (m :: rest) = reports rest := List.filterMap_cons_none hx
      rw [hreports] at hf ⊢
      exact ih hn hf
    | some x =>
      have hreports : reports (m :: rest) = x :: reports rest := List.filterMap_cons_some hx
      rw [hreports] at hf ⊢
      refine ih hn.hear fun y hy => ?_
      show y.frame < (r.hear x).frames.size
      rw [hn.gains_hear.size]
      exact hf y (List.mem_cons_of_mem x hy)

/-! ## Copies written back -/

/-- What writing back `copies` to `r` leads to, and what has happened then.  A copy is about
    the tenant of its frame. -/
structure WrittenBack (r : Residency) (copies : List Mapping) (r' : Residency) : Prop where
  /-- The order of the copies does not matter. -/
  order : ∀ more, more.Perm copies → r.reconcileAll more = .ok r'
  /-- Neither do copies that are not valid, nor what a copy says about its page. -/
  labels : ∀ more, reports more = reports copies → r.reconcileAll more = .ok r'
  /-- Written back once more, the copies change nothing. -/
  again : r'.reconcileAll copies = .ok r'
  /-- Bits come on, and nothing else changes. -/
  gains : r.Gains r'
  /-- No bit of an entry goes off. -/
  kept : ∀ pid v e, r.listed? pid v = some e → ∃ e', r'.listed? pid v = some e' ∧
    (e.used = true → e'.used = true) ∧ (e.dirty = true → e'.dirty = true)
  /-- An entry that has changed is that of the tenant of a frame with a valid copy. -/
  entries : ∀ pid v, r'.listed? pid v ≠ r.listed? pid v →
    ∃ m ∈ copies, m.valid = true ∧ ∃ t, r.tenant? m.ppn = some t ∧ t.pid = pid ∧ t.entry.vpn = v
  /-- A record that has changed is that of a frame with a tenant and a valid copy. -/
  records : ∀ f, r'.frames.info? f ≠ r.frames.info? f →
    (∃ m ∈ copies, m.valid = true ∧ m.ppn = f) ∧ ∃ t, r.tenant? f = some t
  /-- The tenant of such a frame has the bits of all its copies, and the frame records them. -/
  absorbed : ∀ m ∈ copies, m.valid = true → ∀ t, r.tenant? m.ppn = some t →
    r'.tenant? m.ppn = some { t with
      entry := t.entry.absorb copies
      info := { t.info with mapping := (t.entry.absorb copies).mapping } }

/-- The tenant of a frame with a report absorbs the copies. -/
theorem Numbered.tenant?_of_mem (hn : r.Numbered) (hx : x ∈ reports copies)
    (ht : r.tenant? x.frame = some t) :
    (r.hearAll (reports copies)).tenant? x.frame = some { t with
      entry := t.entry.absorb copies
      info := { t.info with mapping := (t.entry.absorb copies).mapping } } := by
  obtain ⟨hframe, -, -, -, hs⟩ := tenant?_eq_some_iff.1 ht
  have hlast : (r.hearAll (reports copies)).tenant? x.frame =
      some ((reports copies).foldl Tenancy.hear t) := by
    rw [hn.tenant?_hearAll, ht, Option.map_some]
  -- Another report like `x` says nothing new, so the frame records the mapping of its page.
  have hfix : ((reports copies).foldl Tenancy.hear t).hear x =
      (reports copies).foldl Tenancy.hear t := by
    have hheard : ((r.hearAll (reports copies)).hear x).tenant? x.frame =
        ((r.hearAll (reports copies)).tenant? x.frame).map (·.hear x) := hn.hearAll.tenant?_hear
    rw [hn.hear_of_mem hx, hlast, Option.map_some] at hheard
    exact (Option.some.inj hheard).symm
  have hmapping := Tenancy.mapping_eq_of_hear hfix
    (by rw [Tenancy.foldl_hear_eq]; exact hframe.symm)
  have hentry : ((reports copies).foldl Tenancy.hear t).entry = t.entry.absorb copies := by
    rw [Tenancy.entry_foldl_hear, PageEntry.absorb_resident hs, usedIn_reports, dirtyIn_reports,
      hframe]
  rw [hlast, Tenancy.foldl_hear_eq, hmapping, hentry]

/-- However the records of frames and pages fit together, copies can be written back in any
    order and any number of times, and only the tenants of their frames notice. -/
theorem Numbered.reconcileAll_writtenBack (hn : r.Numbered)
    (hf : ∀ m ∈ copies, m.valid = true → m.ppn < r.frames.size) :
    ∃ r', r.reconcileAll copies = .ok r' ∧ r.WrittenBack copies r' := by
  have hin : ∀ x ∈ reports copies, x.frame < r.frames.size := by
    intro x hx
    obtain ⟨m, hm, hv, rfl⟩ := mem_reports_iff.1 hx
    exact hf m hm hv
  refine ⟨r.hearAll (reports copies), hn.reconcileAll_eq hin, ?_⟩
  constructor
  case order =>
    intro more hp
    have hreports : (reports more).Perm (reports copies) := hp.filterMap _
    rw [hn.reconcileAll_eq fun x hx => hin x (hreports.mem_iff.1 hx), hn.hearAll_perm hreports]
  case labels =>
    intro more heq
    rw [hn.reconcileAll_eq (heq ▸ hin), heq]
  case again =>
    have hsize : (r.hearAll (reports copies)).frames.size = r.frames.size :=
      hn.gains_hearAll.size
    rw [hn.hearAll.reconcileAll_eq (hsize ▸ hin), hn.hearAll_of_subset (List.Subset.refl _)]
  case gains => exact hn.gains_hearAll
  case kept =>
    intro pid v e he
    obtain ⟨e', he', hgains⟩ := hn.gains_hearAll.entry pid v e he
    exact ⟨e', he', hgains.kept⟩
  case entries =>
    intro pid v hne
    obtain ⟨x, hx, t, ht, hpage⟩ := hn.listed?_hearAll.resolve_left hne
    obtain ⟨m, hm, hv, rfl⟩ := mem_reports_iff.1 hx
    exact ⟨m, hm, hv, t, ht, hpage⟩
  case records =>
    intro f hne
    obtain ⟨⟨x, hx, hxf⟩, ht⟩ := hn.info?_hearAll.resolve_left hne
    obtain ⟨m, hm, hv, rfl⟩ := mem_reports_iff.1 hx
    exact ⟨⟨m, hm, hv, hxf⟩, ht⟩
  case absorbed =>
    intro m hm hv t ht
    exact hn.tenant?_of_mem (mem_reports_iff.2 ⟨m, hm, hv, rfl⟩) ht

/-- Residencies with a row of numbered entries in each process. -/
theorem numbered_of_entries
    (h : ∀ p, some p ∈ r.processes →
      p.table.entries.toList.map (·.vpn) = List.range p.table.entries.toList.length) :
    r.Numbered := by
  intro pid v e he
  obtain ⟨p, hp, -, hentry⟩ := page?_eq_some_iff.1 he
  obtain _ | n := pid
  · cases hp
  rw [process?, Option.join_eq_some_iff] at hp
  rw [PageTable.find?_eq] at hentry
  obtain ⟨hlt, rfl⟩ := List.getElem?_eq_some_iff.1 hentry
  have hvpn := congrArg (·[v]?) (h p (List.mem_of_getElem? hp))
  simpa [hlt] using hvpn

/-- Frames 0 and 1 both name page 0, which is in frame 0.  Frame 2 is that of a process that is
    gone, and frame 3 names a page that is not there. -/
def crossed : Residency where
  frames :=
    { frames := Row.ofList
        [{ owner := some 1 }, { owner := some 1 }, { owner := some 7 },
          { owner := some 1, mapping := { vpn := 1 } }]
      pool := FramePool.create 0 }
  processes :=
    [some
      { table := ⟨Row.ofList [{ vpn := 0, state := .resident 0, used := true }, { vpn := 1 }]⟩
        executable := []
        numPages := 2 }]

/-- A stale copy, copies of all frames, and one that is not valid and of no frame. -/
def crossedCopies : List Mapping :=
  [{ vpn := 5, ppn := 0, valid := true, dirty := true }, { ppn := 1, valid := true, used := true },
    { ppn := 2, valid := true, dirty := true }, { vpn := 1, ppn := 3, valid := true, used := true },
    { ppn := 9, dirty := true }]

theorem crossed_writtenBack : ∃ r', crossed.reconcileAll crossedCopies = .ok r' ∧
    crossed.WrittenBack crossedCopies r' ∧
    r'.listed? 1 0 = some { vpn := 0, state := .resident 0, used := true, dirty := true } ∧
    r'.listed? 1 1 = some { vpn := 1 } := by
  have hn : crossed.Numbered := numbered_of_entries (by
    intro p hp
    obtain rfl := Option.some.inj (List.mem_singleton.1 hp)
    decide)
  have hf : ∀ m ∈ crossedCopies, m.valid = true → m.ppn < crossed.frames.size := by decide
  obtain ⟨r', hr, hw⟩ := hn.reconcileAll_writtenBack hf
  have hentries : (crossed.reconcileAll crossedCopies).toOption.map
      (fun r => (r.listed? 1 0, r.listed? 1 1)) =
      some (some { vpn := 0, state := .resident 0, used := true, dirty := true },
        some { vpn := 1 }) := by
    decide +kernel
  rw [hr] at hentries
  obtain ⟨h0, h1⟩ := Prod.mk.inj (Option.some.inj hentries)
  exact ⟨r', hr, hw, h0, h1⟩

end DemandPaging.Residency
