/-
  The pages of the processes, seen one by one.

  `page?` is the entry of a page of a registered process, and `outline?` what never
  changes about a process but for its end.  `link` replaces the entry of a page and the
  record of a frame together, which is how every fault, eviction and reference changes
  them in the end.
-/
import DemandPaging.Proofs.Frames
import DemandPaging.Residency

namespace DemandPaging

/-! ## Page tables -/

namespace PageTable

variable {table : PageTable} {v w : Vpn} {e e' : PageEntry}

/-- The entry of a page, if the table has it. -/
def find? (table : PageTable) (v : Vpn) : Option PageEntry := table.entries.get? v

theorem find?_eq : table.find? v = table.entries.toList[v]? := table.entries.get?_eq v

theorem find?_ofFlags {flags : List Bool} {v : Vpn} :
    (ofFlags flags).find? v = flags[v]?.map fun b => { vpn := v, readOnly := b } := by
  rw [find?_eq, ofFlags, Row.toList_ofList, List.getElem?_mapIdx]

theorem get_eq (h : table.find? v = some e) : table.get v = .ok e := by
  unfold find? at h
  rw [get, h]

theorem get_eq_of_none (h : table.find? v = none) : table.get v = .error (.addressOutOfRange v) := by
  unfold find? at h
  rw [get, h]

theorem lt_length (h : table.find? v = some e) : v < table.entries.toList.length := by
  rw [find?_eq] at h
  exact (List.getElem?_eq_some_iff.1 h).1

theorem find?_set (h : table.find? v = some e) :
    (table.set v e').find? w = if w = v then some e' else table.find? w := by
  rw [find?_eq, find?_eq, set, Row.toList_set, List.getElem?_set, if_pos (lt_length h)]
  by_cases hw : w = v
  · rw [if_pos hw.symm, if_pos hw]
  · rw [if_neg (Ne.symm hw), if_neg hw]

@[simp] theorem set_set : (table.set v e).set v e' = table.set v e' := by
  unfold set
  congr 1
  exact Row.eq_of_shape (by simp) (by simp)

theorem set_comm (h : v ≠ w) : (table.set v e).set w e' = (table.set w e').set v e := by
  unfold set
  congr 1
  refine Row.eq_of_shape (by simp) ?_
  simpa using List.set_comm e e' h

theorem residentIn_eq {f : Frame} (h : table.find? v = some e) (hf : e.state = .resident f) :
    table.residentIn v f = some e := by
  unfold find? at h
  rw [residentIn, h, Option.filter_some, hf]
  simp

end PageTable

/-! ## Processes -/

/-- What never changes about a process but for its end. -/
structure Process.Outline where
  executable : List SectionId
  numPages : Nat
  exited : Bool
  registered : Bool
  readOnly : List Bool
deriving DecidableEq

/-- The outline of a process. -/
def Process.outline (p : Process) : Process.Outline :=
  ⟨p.executable, p.numPages, p.exited, p.registered, p.table.entries.toList.map (·.readOnly)⟩

/-- The same process later on: it has ended, perhaps. -/
structure Process.Outline.Ages (o o' : Process.Outline) : Prop where
  executable : o'.executable = o.executable
  readOnly : o'.readOnly = o.readOnly
  exited : o.exited = true → o'.exited = true

theorem Process.Outline.Ages.refl {o : Process.Outline} : o.Ages o := ⟨rfl, rfl, id⟩

theorem Process.Outline.Ages.trans {o o' o'' : Process.Outline} (h : o.Ages o') (h' : o'.Ages o'') :
    o.Ages o'' :=
  ⟨h'.executable.trans h.executable, h'.readOnly.trans h.readOnly, h'.exited ∘ h.exited⟩

theorem Process.outline_set {p : Process} {v : Vpn} {e e' : PageEntry}
    (h : p.table.find? v = some e) (hro : e'.readOnly = e.readOnly) :
    Process.outline { p with table := p.table.set v e' } = p.outline := by
  rw [PageTable.find?_eq] at h
  obtain ⟨hlt, rfl⟩ := List.getElem?_eq_some_iff.1 h
  simp only [Process.outline, PageTable.set, Row.toList_set, List.map_set, hro, Outline.mk.injEq,
    true_and]
  refine List.ext_getElem? fun i => ?_
  rw [List.getElem?_set]
  split
  · next hi => subst hi; simp [hlt]
  · rfl

namespace Residency

variable {r : Residency} {pid q : Pid} {v w : Vpn} {e e' : PageEntry} {p : Process} {f g : Frame}
  {i j : FrameInfo} {table : FrameTable}

/-- The outline of a process, if it is there. -/
def outline? (r : Residency) (pid : Pid) : Option Process.Outline :=
  (r.process? pid).map Process.outline

/-- The entry of a page of a registered process. -/
def page? (r : Residency) (pid : Pid) (v : Vpn) : Option PageEntry :=
  (r.table? pid).bind (·.find? v)

/-- The entry of a page of any process, be it registered or not. -/
def listed? (r : Residency) (pid : Pid) (v : Vpn) : Option PageEntry :=
  (r.process? pid).bind (·.table.find? v)

theorem table?_eq_some_iff {t : PageTable} :
    r.table? pid = some t ↔ ∃ p, r.process? pid = some p ∧ p.registered = true ∧ p.table = t := by
  simp only [table?, Option.map_eq_some_iff, Option.filter_eq_some_iff]
  constructor
  · rintro ⟨p, ⟨hp, hr⟩, ht⟩
    exact ⟨p, hp, hr, ht⟩
  · rintro ⟨p, hp, hr, ht⟩
    exact ⟨p, ⟨hp, hr⟩, ht⟩

theorem page?_eq_some_iff :
    r.page? pid v = some e ↔
      ∃ p, r.process? pid = some p ∧ p.registered = true ∧ p.table.find? v = some e := by
  simp only [page?, Option.bind_eq_some_iff, table?_eq_some_iff]
  constructor
  · rintro ⟨t, ⟨p, hp, hr, rfl⟩, he⟩
    exact ⟨p, hp, hr, he⟩
  · rintro ⟨p, hp, hr, he⟩
    exact ⟨p.table, ⟨p, hp, hr, rfl⟩, he⟩

theorem page?_of_process (hp : r.process? pid = some p) (hr : p.registered = true) :
    r.page? pid v = p.table.find? v := by
  rw [page?, table?_eq_some_iff.2 ⟨p, hp, hr, rfl⟩, Option.bind_some]

theorem listed?_of_page? (he : r.page? pid v = some e) : r.listed? pid v = some e := by
  obtain ⟨p, hp, -, hentry⟩ := page?_eq_some_iff.1 he
  rw [listed?, hp]
  exact hentry

theorem page?_congr {r' : Residency} (h : r'.process? pid = r.process? pid) :
    r'.page? pid v = r.page? pid v := by
  unfold page? table?
  rw [h]

theorem process?_of_nil (h : r.processes = []) : r.process? pid = none := by
  cases pid with
  | zero => rfl
  | succ n =>
    rw [process?, h]
    rfl

theorem outline?_of_process (h : r.process? pid = some p) : r.outline? pid = some p.outline :=
  congrArg (Option.map _) h

theorem outline?_of_nil (h : r.processes = []) : r.outline? pid = none := by
  rw [outline?, process?_of_nil h, Option.map_none]

theorem page?_of_nil (h : r.processes = []) : r.page? pid v = none := by
  rw [page?, table?, process?_of_nil h]
  rfl

/-! ## Changes of a process -/

theorem process?_updateProcess {c : Process → Process} :
    (r.updateProcess pid c).process? q =
      if q = pid then (r.process? q).map c else r.process? q := by
  cases pid with
  | zero => cases q <;> simp [updateProcess, process?]
  | succ n =>
    cases q with
    | zero => simp [process?]
    | succ m =>
      simp only [updateProcess, process?, List.getElem?_modify, Nat.succ_eq_add_one,
        Nat.add_right_cancel_iff]
      by_cases h : m = n
      · subst h
        simp only [if_true]
        cases r.processes[m]? with
        | none => rfl
        | some o => cases o <;> rfl
      · simp only [Ne.symm h, h, if_false]
        cases r.processes[m]? <;> rfl

theorem process?_updateProcess_self {c : Process → Process} (hp : r.process? pid = some p) :
    (r.updateProcess pid c).process? pid = some (c p) := by
  rw [process?_updateProcess, if_pos rfl, hp, Option.map_some]

theorem process?_updateProcess_ne {c : Process → Process} (h : q ≠ pid) :
    (r.updateProcess pid c).process? q = r.process? q := by
  rw [process?_updateProcess, if_neg h]

@[simp] theorem frames_updateProcess {c : Process → Process} :
    (r.updateProcess pid c).frames = r.frames := by
  cases pid <;> rfl

@[simp] theorem hand_updateProcess {c : Process → Process} :
    (r.updateProcess pid c).hand = r.hand := by
  cases pid <;> rfl

/-- Two changes that agree on the process at hand are the same. -/
theorem updateProcess_congr {c d : Process → Process} (hp : r.process? pid = some p)
    (h : c p = d p) : r.updateProcess pid c = r.updateProcess pid d := by
  cases pid with
  | zero => rfl
  | succ n =>
    simp only [updateProcess, Residency.mk.injEq, true_and]
    refine List.ext_getElem? fun j => ?_
    rw [List.getElem?_modify, List.getElem?_modify]
    by_cases hj : n = j
    · subst hj
      rw [Option.join_eq_some_iff.1 hp]
      simp [h]
    · simp [hj]

theorem updateProcess_updateProcess {c d : Process → Process} :
    (r.updateProcess pid c).updateProcess pid d = r.updateProcess pid (d ∘ c) := by
  cases pid with
  | zero => rfl
  | succ n =>
    simp only [updateProcess, List.modify_modify_eq, Residency.mk.injEq, true_and]
    congr 1
    funext o
    simp

theorem updateProcess_comm {c d : Process → Process} (h : pid ≠ q) :
    (r.updateProcess pid c).updateProcess q d = (r.updateProcess q d).updateProcess pid c := by
  cases pid with
  | zero => rfl
  | succ n =>
    cases q with
    | zero => rfl
    | succ m =>
      simp only [updateProcess, Residency.mk.injEq, true_and]
      exact List.modify_modify_ne _ _ _ fun hnm => h (congrArg _ hnm)

@[simp] theorem setEntry_setEntry : (r.setEntry pid v e).setEntry pid v e' = r.setEntry pid v e' := by
  unfold setEntry
  rw [updateProcess_updateProcess]
  congr 1
  funext p
  simp

/-- Entries of different pages are replaced in any order. -/
theorem setEntry_comm (h : ¬ (q = pid ∧ w = v)) :
    (r.setEntry pid v e).setEntry q w e' = (r.setEntry q w e').setEntry pid v e := by
  unfold setEntry
  by_cases hq : q = pid
  · subst hq
    rw [updateProcess_updateProcess, updateProcess_updateProcess]
    congr 1
    funext p
    simp only [Function.comp_apply, PageTable.set_comm fun hw => h ⟨rfl, hw.symm⟩]
  · exact updateProcess_comm (Ne.symm hq)

theorem setTable_eq {t : PageTable} (ht : r.table? pid = some t) :
    r.setTable pid (t.set v e') = r.setEntry pid v e' := by
  obtain ⟨p, hp, -, rfl⟩ := table?_eq_some_iff.1 ht
  exact updateProcess_congr hp rfl

theorem page?_setEntry (h : r.page? pid v = some e) :
    (r.setEntry pid v e').page? q w = if q = pid ∧ w = v then some e' else r.page? q w := by
  obtain ⟨p, hp, hr, he⟩ := page?_eq_some_iff.1 h
  unfold setEntry
  by_cases hq : q = pid
  · subst hq
    have hnew := process?_updateProcess_self (c := fun p => { p with table := p.table.set v e' }) hp
    rw [page?_of_process hnew hr, page?_of_process hp hr, PageTable.find?_set he]
    simp only [true_and]
  · rw [page?_congr (process?_updateProcess_ne hq), if_neg fun hqw => hq hqw.1]

theorem outline?_updateProcess {c : Process → Process}
    (h : ∀ p, r.process? pid = some p → (c p).outline = p.outline) :
    (r.updateProcess pid c).outline? q = r.outline? q := by
  unfold outline?
  rw [process?_updateProcess]
  split
  · next hq =>
    subst hq
    cases hp : r.process? q with
    | none => rfl
    | some p => simp [h p hp]
  · rfl

theorem outline?_setEntry (h : r.page? pid v = some e) (hro : e'.readOnly = e.readOnly) :
    (r.setEntry pid v e').outline? q = r.outline? q := by
  obtain ⟨p, hp, -, he⟩ := page?_eq_some_iff.1 h
  refine outline?_updateProcess fun p' hp' => ?_
  obtain rfl : p = p' := Option.some.inj (hp.symm.trans hp')
  exact Process.outline_set he hro

@[simp] theorem processes_frames : { r with frames := table }.process? pid = r.process? pid := by
  cases pid <;> rfl

@[simp] theorem page?_frames : { r with frames := table }.page? pid v = r.page? pid v :=
  page?_congr processes_frames

@[simp] theorem outline?_frames : { r with frames := table }.outline? pid = r.outline? pid := by
  unfold outline?
  rw [processes_frames]

theorem setEntry_frames :
    setEntry { r with frames := table } pid v e = { r.setEntry pid v e with frames := table } := by
  cases pid <;> rfl

/-! ## Linking a page and a frame -/

/-- The entry of page `v` of process `pid` and the record of frame `f` replaced. -/
def link (r : Residency) (pid : Pid) (v : Vpn) (e : PageEntry) (f : Frame) (i : FrameInfo) :
    Residency :=
  { r.setEntry pid v e with frames := r.frames.put f i }

@[simp] theorem frames_link : (r.link pid v e f i).frames = r.frames.put f i := rfl

@[simp] theorem hand_link : (r.link pid v e f i).hand = r.hand := hand_updateProcess

theorem page?_link (h : r.page? pid v = some e) :
    (r.link pid v e' f i).page? q w = if q = pid ∧ w = v then some e' else r.page? q w := by
  rw [link, page?_frames, page?_setEntry h]

theorem page?_link_self (h : r.page? pid v = some e) :
    (r.link pid v e' f i).page? pid v = some e' := by
  rw [page?_link h, if_pos ⟨rfl, rfl⟩]

theorem outline?_link (h : r.page? pid v = some e) (hro : e'.readOnly = e.readOnly) :
    (r.link pid v e' f i).outline? q = r.outline? q := by
  rw [link, outline?_frames, outline?_setEntry h hro]

theorem listed?_link (h : r.page? pid v = some e) :
    (r.link pid v e' f i).listed? q w = if q = pid ∧ w = v then some e' else r.listed? q w := by
  obtain ⟨p, hp, -, he⟩ := page?_eq_some_iff.1 h
  unfold listed? link setEntry
  rw [processes_frames]
  by_cases hq : q = pid
  · subst hq
    rw [process?_updateProcess_self hp, hp, Option.bind_some, Option.bind_some,
      PageTable.find?_set he]
    simp only [true_and]
  · rw [process?_updateProcess_ne hq, if_neg fun hqw => hq hqw.1]

theorem link_then_link : (r.link pid v e f i).link q w e' g j =
    { (r.setEntry pid v e).setEntry q w e' with frames := (r.frames.put f i).put g j } := by
  rw [link, frames_link, link, setEntry_frames]

/-- The last link of a page and a frame counts. -/
@[simp] theorem link_link : (r.link pid v e f i).link pid v e' f j = r.link pid v e' f j := by
  rw [link_then_link, setEntry_setEntry, FrameTable.put_put, link]

/-- Different pages are linked to different frames in any order. -/
theorem link_comm (hpage : ¬ (q = pid ∧ w = v)) (hframe : g ≠ f) :
    (r.link pid v e f i).link q w e' g j = (r.link q w e' g j).link pid v e f i := by
  rw [link_then_link, link_then_link, setEntry_comm hpage, FrameTable.put_comm hframe]

/-! ## New processes and old ones -/

/-- A page has the flag that its process was made with. -/
theorem flag_eq (h : r.page? pid v = some e) :
    (r.outline? pid).bind (·.readOnly[v]?) = some e.readOnly := by
  obtain ⟨p, hp, -, hentry⟩ := page?_eq_some_iff.1 h
  rw [outline?, hp, Option.map_some, Option.bind_some, Process.outline, List.getElem?_map,
    ← PageTable.find?_eq, hentry, Option.map_some]

theorem process?_addProcess :
    (r.addProcess p).process? q = if q = r.nextPid then some p else r.process? q := by
  cases q with
  | zero => simp [process?, nextPid]
  | succ n =>
    have hiff : n + 1 = r.nextPid ↔ n = r.processes.length := by unfold nextPid; omega
    simp only [process?, addProcess, hiff, List.getElem?_append]
    rcases Nat.lt_trichotomy n r.processes.length with h | h | h
    · rw [if_pos h, if_neg (by omega)]
    · simp [h]
    · rw [if_neg (by omega), if_neg (by omega), List.getElem?_eq_none (by simp; omega),
        List.getElem?_eq_none (by omega)]

theorem process?_nextPid : r.process? r.nextPid = none := by
  simp [process?, nextPid]

theorem process?_dropProcess :
    (r.dropProcess pid).process? q = if q = pid then none else r.process? q := by
  cases pid with
  | zero => cases q <;> simp [dropProcess, process?]
  | succ n =>
    cases q with
    | zero => simp [process?]
    | succ m =>
      simp only [dropProcess, process?, List.getElem?_set, Nat.succ_eq_add_one,
        Nat.add_right_cancel_iff]
      by_cases h : m = n
      · subst h
        simp only [if_true]
        split
        · rfl
        · rfl
      · simp only [Ne.symm h, h, if_false]

@[simp] theorem nextPid_updateProcess {c : Process → Process} :
    (r.updateProcess pid c).nextPid = r.nextPid := by
  cases pid with
  | zero => rfl
  | succ n => simp [nextPid, updateProcess]

@[simp] theorem nextPid_link : (r.link pid v e f i).nextPid = r.nextPid := nextPid_updateProcess

@[simp] theorem nextPid_addProcess : (r.addProcess p).nextPid = r.nextPid + 1 := by
  simp [nextPid, addProcess]

@[simp] theorem nextPid_dropProcess : (r.dropProcess pid).nextPid = r.nextPid := by
  cases pid with
  | zero => rfl
  | succ n => simp [nextPid, dropProcess]

/-- Processes that are there have numbers below the next one. -/
theorem lt_nextPid (hp : r.process? pid = some p) : pid < r.nextPid := by
  cases pid with
  | zero => exact Nat.succ_pos _
  | succ n =>
    rw [process?, Option.join_eq_some_iff] at hp
    obtain ⟨hlt, -⟩ := List.getElem?_eq_some_iff.1 hp
    exact Nat.succ_lt_succ hlt

@[simp] theorem frames_dropProcess : (r.dropProcess pid).frames = r.frames := by
  cases pid <;> rfl

@[simp] theorem hand_dropProcess : (r.dropProcess pid).hand = r.hand := by
  cases pid <;> rfl

end Residency

end DemandPaging
