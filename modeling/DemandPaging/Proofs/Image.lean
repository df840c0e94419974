/-
  The address space that an executable makes.

  Sections that follow one another from page 0 on cover every page of the image, so that a
  page has exactly the flag of the section it lies in: the flags that are written to a new table
  page by page are those of the sections, one section after another (`flagPages_create`).  A load
  only counts itself: the sections stay the same but for that (`unloaded`).
-/
import DemandPaging.Kernel.Lifecycle
import DemandPaging.Proofs.Ends
import DemandPaging.Proofs.Pages

namespace DemandPaging

/-! ## Loads -/

/-- The section before any page was loaded from it. -/
def Section.unloaded (s : Section) : Section := { s with loads := 0 }

@[simp] theorem Section.unloaded_unloaded (s : Section) : s.unloaded.unloaded = s.unloaded := rfl

@[simp] theorem Section.numPages_unloaded (s : Section) : s.unloaded.numPages = s.numPages := rfl

@[simp] theorem Section.covers_unloaded (s : Section) (vpn : Vpn) :
    s.unloaded.covers vpn = s.covers vpn := rfl

namespace Section

/-- The pages of a section follow its first one. -/
theorem covers_eq {s : Section} {start n vpn : Nat} (hfirst : s.firstVpn = start)
    (hn : s.numPages = .ok n) (hlt : start + n < limit32) (hle : start ≤ vpn) :
    s.covers vpn = .ok (decide (vpn < start + n)) := by
  have hsum : addBelow limit32 start n = .ok (start + n) := addBelow_eq_ok_iff.2 ⟨rfl, hlt⟩
  unfold covers
  rw [hfirst, if_neg (Nat.not_lt.2 hle), hn]
  simp only [bind, Except.bind, hsum]
  rfl

/-- Pages of data have the length they are asked for in. -/
theorem length_pageOfData {pageSize index : Nat} {bytes : Block} :
    Checked.Ends (fun _ => True) (pageOfData pageSize bytes index) fun page =>
      page.length = pageSize := by
  unfold pageOfData
  simp only [Checked.ends_bind, Checked.ends_reserve, Checked.ends_mulBelow,
    Checked.ends_addBelow, Checked.ends_pure, implies_true, and_true]
  intro _ _ _
  simp only [Bytes.extend, Block.slice_eq, Bytes.slice, Bytes.zeros, List.length_append,
    List.length_take, List.length_drop, List.length_replicate, Block.size_eq]
  omega

/-- A load changes nothing but its count, and gives pages of the right length. -/
theorem ends_loadAt (s : Section) (vpn : Vpn) (len : Nat) :
    Ends (fun _ => True) (loadAt vpn len).run s fun r s' =>
      s'.unloaded = s.unloaded ∧ ∀ page, r = .ok page → page.length = len := by
  obtain ⟨name, firstVpn, readOnly, pageSize, content, loads⟩ := s
  unfold loadAt load
  simp only [ends_bind, ends_get]
  cases content with
  | data bytes =>
    simp only [ends_bind, ends_lift, ends_ite, ends_throw, ends_set, ends_pure]
    refine Checked.Ends.imp (Checked.ends_true fun _ _ => trivial) fun n _ => ?_
    refine ⟨fun _ => ⟨trivial, (by simp)⟩, fun _ => ⟨fun _ => ⟨trivial, (by simp)⟩, fun hlen => ?_⟩⟩
    refine Checked.Ends.imp length_pageOfData fun page hpage => ⟨rfl, ?_⟩
    rintro _ ⟨⟩
    exact hpage.trans (Classical.not_not.1 hlen).symm
  | reader n page =>
    dsimp only
    cases page (vpn - firstVpn) len with
    | none => exact ⟨rfl, (by simp)⟩
    | some page =>
      refine ⟨rfl, ?_⟩
      rintro _ ⟨⟩
      exact page.length_toList

/-- Loading a page stops with violations in `V` only, however many were loaded before. -/
def Loads (V : Violation → Prop) (s : Section) : Prop :=
  ∀ vpn loads, Ends V (loadAt vpn s.pageSize).run { s with loads } fun _ _ => True

end Section

namespace Executable

variable {exe : Executable} {flags : List Bool} {start total n : Nat} {vpn : Vpn} {b : Bool}

/-- The sections before any page was loaded from them. -/
def unloaded (exe : Executable) : Executable := exe.map Section.unloaded

theorem countFrom_unloaded : countFrom total exe.unloaded = countFrom total exe := by
  induction exe generalizing total with
  | nil => rfl
  | cons s rest ih =>
    simp only [unloaded, List.map_cons, countFrom, Section.numPages_unloaded]
    refine bind_congr fun n => bind_congr fun m => ?_
    exact ih

theorem position?_unloaded : exe.unloaded.position? vpn = exe.position? vpn := by
  induction exe with
  | nil => rfl
  | cons s rest ih =>
    simp only [unloaded, List.map_cons, position?, Section.covers_unloaded]
    refine bind_congr fun hit => ?_
    cases hit with
    | true => rfl
    | false => exact congrArg (fun c : Checked (Option Nat) => c >>= fun o => pure (o.map (· + 1))) ih

theorem contiguousFrom_unloaded : contiguousFrom start exe.unloaded = contiguousFrom start exe := by
  induction exe generalizing start with
  | nil => rfl
  | cons s rest ih =>
    have hfirst : s.unloaded.firstVpn = s.firstVpn := rfl
    have hname : s.unloaded.name = s.name := rfl
    have hrest : ∀ m, contiguousFrom m (rest.map Section.unloaded) = contiguousFrom m rest :=
      fun m => ih
    simp only [unloaded, List.map_cons, contiguousFrom, Section.numPages_unloaded, hfirst, hname,
      hrest]

/-- The read-only flag of each page, one section after another. -/
def flagList : Executable → Checked (List Bool)
  | [] => .ok []
  | s :: rest => do
    let flags := List.replicate (← s.numPages) s.readOnly
    return flags ++ (← flagList rest)

theorem flagList_unloaded : flagList exe.unloaded = flagList exe := by
  induction exe with
  | nil => rfl
  | cons s rest ih =>
    have hro : s.unloaded.readOnly = s.readOnly := rfl
    have hrest : flagList (rest.map Section.unloaded) = flagList rest := ih
    simp only [unloaded, List.map_cons, flagList, Section.numPages_unloaded, hro, hrest]

/-! ## Contiguous sections -/

theorem contiguousFrom_cons {s : Section}
    (h : (contiguousFrom start (s :: exe)).run = .ok (.ok ())) :
    s.firstVpn = start ∧ ∃ n, s.numPages = .ok n ∧ start + n < limit32 ∧
      (exe.contiguousFrom (start + n)).run = .ok (.ok ()) := by
  unfold contiguousFrom at h
  by_cases hfirst : s.firstVpn = start
  · refine ⟨hfirst, ?_⟩
    simp only [hfirst, ne_eq, not_true, if_false] at h
    cases hn : s.numPages with
    | error v => rw [hn] at h; cases h
    | ok n =>
      rw [hn] at h
      change (liftM (addBelow limit32 start n) >>= fun stop =>
        exe.contiguousFrom stop : Attempt PagingError Unit).run = _ at h
      unfold addBelow at h
      split at h
      · next hlt => exact ⟨n, rfl, hlt, h⟩
      · cases h
  · simp only [ne_eq, hfirst, not_false_eq_true, if_true] at h
    cases h

theorem flagList_cons {s : Section} (h : flagList (s :: exe) = .ok flags) :
    ∃ n rest, s.numPages = .ok n ∧ flagList exe = .ok rest ∧
      flags = List.replicate n s.readOnly ++ rest := by
  unfold flagList at h
  cases hn : s.numPages with
  | error v => rw [hn] at h; cases h
  | ok n =>
    cases hrest : flagList exe with
    | error v => rw [hn, hrest] at h; cases h
    | ok rest =>
      rw [hn, hrest] at h
      exact ⟨n, rest, rfl, rfl, (Except.ok.inj h).symm⟩

/-- Every page has a flag. -/
theorem countFrom_eq_length (hcount : countFrom total exe = .ok n)
    (hflags : exe.flagList = .ok flags) : n = total + flags.length := by
  induction exe generalizing total flags with
  | nil =>
    cases hcount
    cases hflags
    rfl
  | cons s rest ih =>
    obtain ⟨m, more, hm, hmore, rfl⟩ := flagList_cons hflags
    unfold countFrom at hcount
    rw [hm] at hcount
    simp only [bind, Except.bind, addBelow] at hcount
    split at hcount
    · cases hcount
    · next total' htotal =>
      split at htotal
      · cases htotal
        rw [ih hcount hmore, List.length_append, List.length_replicate, Nat.add_assoc]
      · cases htotal

/-- Contiguous sections have countable pages. -/
theorem flagList_of_contiguous (h : (exe.contiguousFrom start).run = .ok (.ok ())) :
    ∃ flags, exe.flagList = .ok flags := by
  induction exe generalizing start with
  | nil => exact ⟨[], rfl⟩
  | cons s rest ih =>
    obtain ⟨-, n, hn, -, hrest⟩ := contiguousFrom_cons h
    obtain ⟨flags, hflags⟩ := ih hrest
    refine ⟨List.replicate n s.readOnly ++ flags, ?_⟩
    unfold flagList
    rw [hn, hflags]
    rfl

/-- The section of a page of contiguous sections is found, and has the page's flag. -/
theorem position?_of_contiguous (h : (exe.contiguousFrom start).run = .ok (.ok ()))
    (hflags : exe.flagList = .ok flags) {i : Nat} (hb : flags[i]? = some b) :
    ∃ j s, exe.position? (start + i) = .ok (some j) ∧ exe[j]? = some s ∧ s.readOnly = b ∧
      s.covers (start + i) = .ok true := by
  induction exe generalizing start flags i with
  | nil =>
    cases hflags
    cases hb
  | cons s rest ih =>
    obtain ⟨hfirst, n, hn, hlt, hrest⟩ := contiguousFrom_cons h
    obtain ⟨m, more, hm, hmore, rfl⟩ := flagList_cons hflags
    obtain rfl : n = m := Except.ok.inj (hn.symm.trans hm)
    have hcovers := Section.covers_eq hfirst hn hlt (Nat.le_add_right start i)
    by_cases hi : i < n
    · rw [List.getElem?_append_left (by simpa using hi), List.getElem?_replicate, if_pos hi] at hb
      have hin : decide (start + i < start + n) = true := decide_eq_true (by omega)
      rw [hin] at hcovers
      refine ⟨0, s, ?_, rfl, Option.some.inj hb, hcovers⟩
      unfold position?
      rw [hcovers]
      rfl
    · rw [List.getElem?_append_right (by simpa using hi), List.length_replicate] at hb
      have hout : decide (start + i < start + n) = false := decide_eq_false (by omega)
      rw [hout] at hcovers
      obtain ⟨j, s', hpos, hj, hro, hcov⟩ := ih hrest hmore hb
      rw [show start + n + (i - n) = start + i by omega] at hpos hcov
      refine ⟨j + 1, s', ?_, hj, hro, hcov⟩
      unfold position?
      rw [hcovers, hpos]
      rfl

/-- Contiguous sections have no page behind the image. -/
theorem position?_of_le (h : (exe.contiguousFrom start).run = .ok (.ok ()))
    (hflags : exe.flagList = .ok flags) (hle : start + flags.length ≤ vpn) :
    exe.position? vpn = .ok none := by
  induction exe generalizing start flags with
  | nil => rfl
  | cons s rest ih =>
    obtain ⟨hfirst, n, hn, hlt, hrest⟩ := contiguousFrom_cons h
    obtain ⟨m, more, hm, hmore, rfl⟩ := flagList_cons hflags
    obtain rfl : n = m := Except.ok.inj (hn.symm.trans hm)
    rw [List.length_append, List.length_replicate] at hle
    have hbehind : start + n ≤ vpn := by omega
    have hcovers := Section.covers_eq hfirst hn hlt (Nat.le_trans (Nat.le_add_right start n) hbehind)
    rw [decide_eq_false (Nat.not_lt.2 hbehind)] at hcovers
    unfold position?
    rw [hcovers, ih hrest hmore (by omega)]
    rfl

end Executable

/-! ## Flags -/

theorem PageTable.setReadOnly_ofFlags {flags : List Bool} {v : Vpn} {b : Bool}
    (h : v < flags.length) :
    (ofFlags flags).setReadOnly v b = .ok (ofFlags (flags.set v b)) := by
  have hfind : (ofFlags flags).find? v = some { vpn := v, readOnly := flags[v] } := by
    rw [find?_ofFlags, List.getElem?_eq_getElem h, Option.map_some]
  rw [setReadOnly, get_eq hfind]
  refine congrArg (fun row => Except.ok (mk row)) (Row.eq_of_shape ?_ (List.ext_getElem? fun w => ?_))
  · exact (Row.shape_set _ _ _).trans (Row.shape_ofList (by simp))
  · simp only [ofFlags, Row.toList_set, Row.toList_ofList, List.getElem?_mapIdx, List.getElem?_set,
      List.length_mapIdx]
    by_cases hw : v = w
    · subst hw
      simp [h]
    · simp [hw]

theorem Section.flagPage_ofFlags {s : Section} {flags : List Bool} {start i : Nat}
    (hfirst : s.firstVpn = start) (hlt : start + i < limit32) (hin : start + i < flags.length) :
    (s.flagPage (.ofFlags flags) i).run =
      .ok (.ok (.ofFlags (flags.set (start + i) s.readOnly))) := by
  show (liftM (addBelow limit32 s.firstVpn i) >>= fun vpn => MonadExcept.ofExcept
    (PageTable.setReadOnly (.ofFlags flags) vpn s.readOnly) : Attempt _ _).run = _
  rw [hfirst, addBelow_eq_ok_iff.2 ⟨rfl, hlt⟩]
  show (MonadExcept.ofExcept (PageTable.setReadOnly (.ofFlags flags) (start + i)
    s.readOnly) : Attempt _ _).run = _
  rw [PageTable.setReadOnly_ofFlags hin]
  rfl

/-- The pages from `before.length` on get the flag of the section that starts there.  The induction
    is on the number of pages that have it already. -/
theorem Section.flagPages_ofFlags {s : Section} {before after : List Bool} {n : Nat}
    (hfirst : s.firstVpn = before.length) (hn : s.numPages = .ok n)
    (hlt : before.length + n < limit32) :
    (s.flagPages (.ofFlags (before ++ (List.replicate n false ++ after)))).run =
      .ok (.ok (.ofFlags (before ++ (List.replicate n s.readOnly ++ after)))) := by
  have hsteps (i rest : Nat) (hsum : i + rest = n) :
      ((List.range i).foldlM s.flagPage
        (.ofFlags (before ++ (List.replicate n false ++ after))) : Attempt _ _).run =
      .ok (.ok (.ofFlags
        (before ++ (List.replicate i s.readOnly ++ (List.replicate rest false ++ after))))) := by
    induction i generalizing rest with
    | zero =>
      obtain rfl : rest = n := by omega
      rfl
    | succ i ih =>
      have hset : (before ++ (List.replicate i s.readOnly ++
            (List.replicate (rest + 1) false ++ after))).set (before.length + i) s.readOnly =
          before ++ (List.replicate (i + 1) s.readOnly ++ (List.replicate rest false ++ after)) := by
        rw [List.set_append_right _ _ (by omega), List.set_append_right _ _ (by simp),
          List.replicate_succ (n := rest), List.replicate_succ', List.append_assoc]
        simp only [List.length_replicate, Nat.add_sub_cancel_left, Nat.sub_self, List.cons_append,
          List.set_cons_zero, List.nil_append]
      rw [List.range_succ, List.foldlM_append, ExceptT.run_bind, ih (rest + 1) (by omega)]
      show (s.flagPage _ i >>= pure : Attempt _ _).run = _
      have hin : before.length + i < (before ++ (List.replicate i s.readOnly ++
          (List.replicate (rest + 1) false ++ after))).length := by
        simp only [List.length_append, List.length_replicate]
        omega
      rw [bind_pure, flagPage_ofFlags hfirst (by omega) hin, hset]
  show (liftM s.numPages >>= fun pages => (List.range pages).foldlM s.flagPage
    (.ofFlags (before ++ (List.replicate n false ++ after))) : Attempt _ _).run = _
  rw [hn]
  exact hsteps n 0 (Nat.add_zero n)

/-- The pages of contiguous sections get the flags of their sections; those before and behind them
    keep their own. -/
theorem Executable.flagPages_ofFlags {exe : Executable} {flags : List Bool}
    (before after : List Bool) (h : (exe.contiguousFrom before.length).run = .ok (.ok ()))
    (hflags : exe.flagList = .ok flags) :
    (exe.flagPages (.ofFlags (before ++ (List.replicate flags.length false ++ after)))).run =
      .ok (.ok (.ofFlags (before ++ (flags ++ after)))) := by
  induction exe generalizing before flags with
  | nil =>
    cases hflags
    rfl
  | cons s rest ih =>
    obtain ⟨hfirst, n, hn, hlt, hrest⟩ := contiguousFrom_cons h
    obtain ⟨m, more, hm, hmore, rfl⟩ := flagList_cons hflags
    obtain rfl : n = m := Except.ok.inj (hn.symm.trans hm)
    have hlength : (before ++ List.replicate n s.readOnly).length = before.length + n := by simp
    have hothers := ih (before ++ List.replicate n s.readOnly) (hlength ▸ hrest) hmore
    rw [List.append_assoc, List.append_assoc] at hothers
    rw [List.length_append, List.length_replicate, ← List.replicate_append_replicate,
      List.append_assoc, List.append_assoc, ← hothers]
    show (s.flagPages _ >>= fun table => flagPages rest table : Attempt _ _).run = _
    rw [ExceptT.run_bind, Section.flagPages_ofFlags hfirst hn hlt]
    rfl

/-- A new table gets the flags of contiguous sections. -/
theorem Executable.flagPages_create {exe : Executable} {n : Nat} (stackPages : Nat)
    (h : exe.checkContiguous.run = .ok (.ok ())) (hn : exe.numPages = .ok n) :
    ∃ flags, exe.flagList = .ok flags ∧ n = flags.length ∧
      (exe.flagPages (.create (n + stackPages))).run =
        .ok (.ok (.ofFlags (flags ++ List.replicate stackPages false))) := by
  obtain ⟨flags, hflags⟩ := flagList_of_contiguous h
  have hlength : n = flags.length := (countFrom_eq_length hn hflags).trans (Nat.zero_add _)
  refine ⟨flags, hflags, hlength, ?_⟩
  rw [PageTable.create, ← List.replicate_append_replicate, hlength]
  exact flagPages_ofFlags [] _ h hflags

/-! ## Laid out processes -/

theorem mapM_cons_eq_some {α β : Type} {c : α → Option β} {a : α} {l : List α} {bs : List β} :
    (a :: l).mapM c = some bs ↔
      ∃ b rest, c a = some b ∧ l.mapM c = some rest ∧ bs = b :: rest := by
  rw [List.mapM_cons]
  cases c a <;> cases l.mapM c <;> simp [eq_comm]

theorem exists_of_mapM {α β : Type} {c : α → Option β} {l : List α} {bs : List β} {i : Nat} {b : β}
    (h : l.mapM c = some bs) (hb : bs[i]? = some b) : ∃ a, l[i]? = some a ∧ c a = some b := by
  induction l generalizing bs i with
  | nil =>
    cases h
    cases hb
  | cons a rest ih =>
    obtain ⟨b₀, tail, hb₀, htail, rfl⟩ := mapM_cons_eq_some.1 h
    cases i with
    | zero =>
      cases hb
      exact ⟨a, rfl, hb₀⟩
    | succ i => exact ih htail hb

/-- The sections that make an executable are there, loaded from or not. -/
theorem mapM_unloaded {sections : List Section} {ids : List SectionId} {exe : Executable}
    (h : ids.mapM ((sections.map Section.unloaded)[·]?) = some exe) :
    ∃ exe' : Executable, ids.mapM (sections[·]?) = some exe' ∧ exe'.unloaded = exe ∧
      ∀ (j : Nat) s, exe'[j]? = some s → ∃ sectionId, ids[j]? = some sectionId ∧
        sections[sectionId]? = some s := by
  induction ids generalizing exe with
  | nil =>
    cases h
    exact ⟨[], rfl, rfl, (by simp)⟩
  | cons sectionId rest ih =>
    obtain ⟨s, tail, hs, htail, rfl⟩ := mapM_cons_eq_some.1 h
    rw [List.getElem?_map] at hs
    obtain ⟨s', hs', rfl⟩ := Option.map_eq_some_iff.1 hs
    obtain ⟨tail', htail', rfl, hall⟩ := ih htail
    refine ⟨s' :: tail', mapM_cons_eq_some.2 ⟨s', tail', hs', htail', rfl⟩, rfl, ?_⟩
    rintro (_ | j) s hj
    · cases hj
      exact ⟨sectionId, rfl, hs'⟩
    · exact hall j s hj

theorem mapM_images {sections : List Section} {ids : List SectionId} {exe : Executable}
    (h : ids.mapM (sections[·]?) = some exe) :
    ids.mapM ((sections.map Section.unloaded)[·]?) = some exe.unloaded := by
  induction ids generalizing exe with
  | nil =>
    cases h
    rfl
  | cons sectionId rest ih =>
    obtain ⟨s, tail, hs, htail, rfl⟩ := mapM_cons_eq_some.1 h
    refine mapM_cons_eq_some.2 ⟨s.unloaded, Executable.unloaded tail, ?_, ih htail, rfl⟩
    rw [List.getElem?_map, hs, Option.map_some]

theorem mem_of_mapM {sections : List Section} {ids : List SectionId} {exe : Executable}
    {s : Section} (h : ids.mapM (sections[·]?) = some exe) (hs : s ∈ exe) : s ∈ sections := by
  induction ids generalizing exe with
  | nil =>
    cases h
    cases hs
  | cons sectionId rest ih =>
    obtain ⟨s₀, tail, hs₀, htail, rfl⟩ := mapM_cons_eq_some.1 h
    rcases List.mem_cons.1 hs with rfl | hrest
    · exact List.mem_of_getElem? hs₀
    · exact ih htail hrest

/-- The address space of a process is the image of its sections, followed by the stack. -/
def Process.Outline.Laid (images : List Section) (pageSize stackPages : Nat)
    (o : Process.Outline) : Prop :=
  ∃ (exe : Executable) (flags : List Bool),
    o.executable.mapM (images[·]?) = some exe ∧ (∀ s ∈ exe, s.pageSize = pageSize) ∧
    exe.checkContiguous.run = .ok (.ok ()) ∧ exe.flagList = .ok flags ∧
    exe.numPages = .ok flags.length ∧ o.readOnly = flags ++ List.replicate stackPages false ∧
    flags.length + stackPages < limit32

end DemandPaging
