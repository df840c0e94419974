/-
  Sections that tile an image.

  Four functions place the pages of an executable on their own: `checkContiguous` keeps a running
  total, `numPages` adds all sections up, `position?` takes the first section whose range holds a
  page, and `flagPages` writes a section's flag to the pages from its `firstVpn` on.  They agree
  when each section starts where those before it end (`PlacedTo`), empty sections included; that
  the fourth does is `flagPages_create`.

  * `contiguousFrom_eq`: the check passes over the sections that are placed right, as long as
    their pages can be counted;
  * `position?_eq`: the page at an offset into a section is found in this section;
  * `Tiling`, `tiling`: the two from the outside.
-/
import DemandPaging.Proofs.Image
import Mathlib.Algebra.GroupWithZero.Nat

namespace DemandPaging.Executable

variable {exe : Executable} {s : Section} {counts : List Nat} {start total n m i offset vpn : Nat}

/-! ## Counts -/

/-- The sections have these numbers of pages. -/
def Counts (exe : Executable) (counts : List Nat) : Prop :=
  exe.mapM Section.numPages = .ok counts

/-- The first `m` sections start where those before them end. -/
def PlacedTo (start : Vpn) (exe : Executable) (counts : List Nat) (m : Nat) : Prop :=
  ∀ i s, i < m → exe[i]? = some s → s.firstVpn = start + (counts.take i).sum

theorem counts_nil : Counts [] counts ↔ counts = [] := by
  constructor
  · rintro ⟨⟩
    rfl
  · rintro rfl
    rfl

theorem counts_cons : Counts (s :: exe) counts ↔
    ∃ n rest, s.numPages = .ok n ∧ exe.Counts rest ∧ counts = n :: rest := by
  unfold Counts
  rw [List.mapM_cons]
  cases s.numPages with
  | error v => simp [bind, Except.bind]
  | ok n =>
    cases exe.mapM Section.numPages with
    | error v => simp [bind, Except.bind]
    | ok rest => simp [bind, Except.bind, pure, Except.pure, eq_comm]

theorem Counts.getElem? (hc : exe.Counts counts) (hs : exe[i]? = some s) :
    ∃ n, counts[i]? = some n ∧ s.numPages = .ok n := by
  induction exe generalizing counts i with
  | nil => cases hs
  | cons s₀ exe ih =>
    obtain ⟨n, rest, hn, hrest, rfl⟩ := counts_cons.1 hc
    cases i with
    | zero =>
      cases hs
      exact ⟨n, rfl, hn⟩
    | succ i =>
      rw [List.getElem?_cons_succ] at hs ⊢
      exact ih hrest hs

theorem Counts.length_eq (hc : exe.Counts counts) : counts.length = exe.length := by
  induction exe generalizing counts with
  | nil =>
    rw [counts_nil.1 hc]
    rfl
  | cons s exe ih =>
    obtain ⟨n, rest, -, hrest, rfl⟩ := counts_cons.1 hc
    rw [List.length_cons, List.length_cons, ih hrest]

theorem placedTo_cons {rest : List Nat} : PlacedTo start (s :: exe) (n :: rest) (m + 1) ↔
    s.firstVpn = start ∧ exe.PlacedTo (start + n) rest m := by
  constructor
  · intro h
    refine ⟨by simpa using h 0 s (Nat.succ_pos m) rfl, fun i s' hi hs' => ?_⟩
    have hplace := h (i + 1) s' (Nat.succ_lt_succ hi) hs'
    rwa [List.take_succ_cons, List.sum_cons, ← Nat.add_assoc] at hplace
  · rintro ⟨hfirst, hrest⟩ i s' hi hs'
    cases i with
    | zero =>
      cases hs'
      simpa using hfirst
    | succ i =>
      rw [List.take_succ_cons, List.sum_cons, ← Nat.add_assoc]
      exact hrest i s' (Nat.lt_of_succ_lt_succ hi) hs'

theorem placedTo_zero : exe.PlacedTo 0 counts m ↔
    ∀ (i : Nat) s, i < m → exe[i]? = some s → s.firstVpn = (counts.take i).sum := by
  simp only [PlacedTo, Nat.zero_add]

/-- Every page up to the sum of the counts is at some offset into some section. -/
theorem exists_offset (h : vpn < counts.sum) :
    ∃ (i n offset : Nat), counts[i]? = some n ∧ offset < n ∧
      (counts.take i).sum + offset = vpn := by
  induction counts generalizing vpn with
  | nil => cases h
  | cons n rest ih =>
    by_cases hn : vpn < n
    · exact ⟨0, n, vpn, rfl, hn, Nat.zero_add vpn⟩
    · rw [List.sum_cons] at h
      have hlater : vpn - n < rest.sum := by omega
      obtain ⟨i, m, offset, hm, hoffset, hsum⟩ := ih hlater
      refine ⟨i + 1, m, offset, hm, hoffset, ?_⟩
      rw [List.take_succ_cons, List.sum_cons]
      omega

theorem sum_take_mono (h : i ≤ m) : (counts.take i).sum ≤ (counts.take m).sum := by
  obtain ⟨d, rfl⟩ := Nat.exists_eq_add_of_le h
  rw [List.take_add, List.sum_append]
  exact Nat.le_add_right _ _

theorem sum_take_le : (counts.take i).sum ≤ counts.sum := by
  conv => rhs; rw [← List.take_append_drop i counts, List.sum_append]
  exact Nat.le_add_right _ _

/-- The pages of all sections can be counted if there are few enough. -/
theorem Counts.countFrom_eq (hc : exe.Counts counts) (htotal : total < limit32) :
    countFrom total exe =
      if total + counts.sum < limit32 then .ok (total + counts.sum) else .error .overflow := by
  induction exe generalizing total counts with
  | nil =>
    rw [counts_nil.1 hc, List.sum_nil, Nat.add_zero, if_pos htotal]
    rfl
  | cons s exe ih =>
    obtain ⟨n, rest, hn, hrest, rfl⟩ := counts_cons.1 hc
    unfold countFrom
    rw [hn, List.sum_cons, ← Nat.add_assoc]
    simp only [bind, Except.bind, addBelow]
    by_cases hroom : total + n < limit32
    · rw [if_pos hroom]
      exact ih hrest hroom
    · rw [if_neg hroom, if_neg (by omega)]
      rfl

/-! ## The check -/

/-- The check passes over the first `m` sections if they are placed right, unless their pages
    are too many to be counted.  The induction is on the sections. -/
theorem Counts.contiguousFrom_eq (hc : exe.Counts counts) (hp : exe.PlacedTo start counts m)
    (hstart : start < limit32) : (contiguousFrom start exe).run =
      if start + (counts.take m).sum < limit32 then
        (contiguousFrom (start + (counts.take m).sum) (exe.drop m)).run
      else .error .overflow := by
  induction exe generalizing start counts m with
  | nil =>
    rw [counts_nil.1 hc, List.take_nil, List.drop_nil, List.sum_nil, Nat.add_zero, if_pos hstart]
  | cons s exe ih =>
    obtain ⟨n, rest, hn, hrest, rfl⟩ := counts_cons.1 hc
    cases m with
    | zero => rw [List.take_zero, List.sum_nil, Nat.add_zero, if_pos hstart, List.drop_zero]
    | succ m =>
      obtain ⟨hfirst, hplaced⟩ := placedTo_cons.1 hp
      have hstep : (contiguousFrom start (s :: exe)).run =
          (addBelow limit32 start n >>= fun next => (contiguousFrom next exe).run) := by
        rw [contiguousFrom, hn, if_neg (Classical.not_not.2 hfirst)]
        show (liftM (addBelow limit32 start n) >>= fun next =>
          contiguousFrom next exe : Attempt PagingError Unit).run = _
        cases addBelow limit32 start n <;> rfl
      rw [hstep, List.take_succ_cons, List.sum_cons, ← Nat.add_assoc, List.drop_succ_cons]
      by_cases hroom : start + n < limit32
      · rw [addBelow, if_pos hroom]
        exact ih hrest hplaced hroom
      · rw [addBelow, if_neg hroom, if_neg (by omega)]
        rfl

/-- Up to `m`, either all sections are placed right, or there is a first one that is not. -/
theorem placedTo_or (exe : Executable) (counts : List Nat) (m : Nat) :
    exe.PlacedTo 0 counts m ∨ ∃ i s, exe.PlacedTo 0 counts i ∧ exe[i]? = some s ∧
      s.firstVpn ≠ (counts.take i).sum := by
  induction m with
  | zero => exact .inl fun i s hi => absurd hi (Nat.not_lt_zero i)
  | succ m ih =>
    rcases ih with hp | hbad
    · by_cases hs : ∀ s, exe[m]? = some s → s.firstVpn = (counts.take m).sum
      · refine .inl (placedTo_zero.2 fun i s hi hi' => ?_)
        rcases Nat.lt_succ_iff_lt_or_eq.1 hi with hlt | rfl
        · exact placedTo_zero.1 hp i s hlt hi'
        · exact hs s hi'
      · obtain ⟨s, hs⟩ := Classical.not_forall.1 hs
        obtain ⟨hm, hne⟩ := Classical.not_imp.1 hs
        exact .inr ⟨m, s, hp, hm, hne⟩
    · exact .inr hbad

/-- How the check of sections with these numbers of pages may end. -/
inductive CheckEnds (exe : Executable) (counts : List Nat) :
    Checked (Except PagingError Unit) → Prop where
  | passes (hp : exe.PlacedTo 0 counts exe.length) (hlt : counts.sum < limit32) :
    CheckEnds exe counts (.ok (.ok ()))
  | reports {i : Nat} {s : Section} (hp : exe.PlacedTo 0 counts i) (hs : exe[i]? = some s)
    (hne : s.firstVpn ≠ (counts.take i).sum) (hlt : (counts.take i).sum < limit32) :
    CheckEnds exe counts
      (.ok (.error (.fragmentedExecutable s.name s.firstVpn (counts.take i).sum)))
  | overruns {m : Nat} (hp : exe.PlacedTo 0 counts m) (hle : limit32 ≤ (counts.take m).sum) :
    CheckEnds exe counts (.error .overflow)

theorem Counts.checkEnds (hc : exe.Counts counts) :
    exe.CheckEnds counts exe.checkContiguous.run := by
  have hskip : ∀ {m}, exe.PlacedTo 0 counts m → exe.checkContiguous.run =
      if (counts.take m).sum < limit32 then
        (contiguousFrom (counts.take m).sum (exe.drop m)).run
      else .error .overflow := by
    intro m hp
    have heq := hc.contiguousFrom_eq hp (by decide)
    rwa [Nat.zero_add] at heq
  have hall : counts.take exe.length = counts := by rw [← hc.length_eq, List.take_length]
  rcases placedTo_or exe counts exe.length with hp | ⟨i, s, hp, hs, hne⟩
  · rw [hskip hp]
    split
    · next hlt =>
      rw [List.drop_length]
      exact .passes hp (hall ▸ hlt)
    · next hle => exact .overruns hp (Nat.le_of_not_lt hle)
  · rw [hskip hp]
    split
    · next hlt =>
      obtain ⟨hi, rfl⟩ := List.getElem?_eq_some_iff.1 hs
      rw [List.drop_eq_getElem_cons hi, contiguousFrom, if_pos hne]
      exact .reports hp hs hne hlt
    · next hle => exact .overruns hp (Nat.le_of_not_lt hle)

/-! ## The section of a page -/

/-- The pages of a section are those from its first one on. -/
theorem firstVpn_le_of_covers (hn : s.numPages = .ok n) (h : s.covers vpn = .ok true) :
    s.firstVpn ≤ vpn ∧ vpn < s.firstVpn + n := by
  unfold Section.covers at h
  by_cases hlt : vpn < s.firstVpn
  · rw [if_pos hlt] at h
    cases h
  · rw [if_neg hlt, hn] at h
    simp only [bind, Except.bind, addBelow] at h
    split at h
    · cases h
    · next stop hstop =>
      split at hstop
      · cases hstop
        exact ⟨Nat.le_of_not_lt hlt, of_decide_eq_true (Except.ok.inj h)⟩
      · cases hstop

/-- The page at an offset into a section is found there.  The induction is on the sections. -/
theorem Counts.position?_eq (hc : exe.Counts counts) (hp : exe.PlacedTo start counts exe.length)
    (hlt : start + counts.sum < limit32) (hn : counts[i]? = some n) (hoffset : offset < n) :
    exe.position? (start + (counts.take i).sum + offset) = .ok (some i) := by
  induction exe generalizing start counts i with
  | nil =>
    rw [counts_nil.1 hc] at hn
    cases hn
  | cons s exe ih =>
    obtain ⟨m, rest, hm, hrest, rfl⟩ := counts_cons.1 hc
    obtain ⟨hfirst, hplaced⟩ := placedTo_cons.1 hp
    rw [List.sum_cons] at hlt
    have hcovers : s.covers (start + ((m :: rest).take i).sum + offset) =
        .ok (decide (start + ((m :: rest).take i).sum + offset < start + m)) :=
      Section.covers_eq hfirst hm (by omega) (by omega)
    rw [position?, hcovers]
    cases i with
    | zero =>
      obtain rfl : m = n := Option.some.inj hn
      rw [List.take_zero, List.sum_nil, Nat.add_zero,
        decide_eq_true (Nat.add_lt_add_left hoffset start)]
      rfl
    | succ i =>
      rw [List.take_succ_cons, List.sum_cons, ← Nat.add_assoc, decide_eq_false (by omega)]
      have hfound := ih hrest hplaced (by omega) hn
      simp only [bind, Except.bind, Bool.false_eq_true, if_false, hfound]
      rfl

/-- Section `i`, which has `n` pages, is the one that has page `vpn`. -/
structure HasPage (exe : Executable) (vpn : Vpn) (i : Nat) (s : Section) (n : Nat) : Prop where
  place : exe.position? vpn = .ok (some i)
  found : exe.sectionFor vpn = .ok (some s)
  section_eq : exe[i]? = some s
  pages : s.numPages = .ok n
  firstVpn_le : s.firstVpn ≤ vpn
  /-- The page is one of the section, which is therefore not empty. -/
  index_lt : vpn - s.firstVpn < n
  /-- No other section has it. -/
  only : ∀ j s', exe[j]? = some s' → s'.covers vpn = .ok true → j = i

/-- What the check says about sections with the given numbers of pages, and where their pages are
    then found. -/
structure Tiling (exe : Executable) (counts : List Nat) : Prop where
  /-- The check passes just when every section starts where those before it end. -/
  accepts : exe.checkContiguous.run = .ok (.ok ()) ↔
    ∀ (i : Nat) s, exe[i]? = some s → s.firstVpn = (counts.take i).sum
  /-- If it does not pass, it reports the first section that does not. -/
  reports : exe.checkContiguous.run ≠ .ok (.ok ()) → ∃ (i : Nat) (s : Section),
    exe[i]? = some s ∧ s.firstVpn ≠ (counts.take i).sum ∧
    (∀ (j : Nat) s', j < i → exe[j]? = some s' → s'.firstVpn = (counts.take j).sum) ∧
    exe.checkContiguous.run =
      .ok (.error (.fragmentedExecutable s.name s.firstVpn (counts.take i).sum))
  pages : exe.numPages = .ok counts.sum
  inside : exe.checkContiguous.run = .ok (.ok ()) → ∀ vpn < counts.sum, ∃ i s n,
    exe.HasPage vpn i s n
  outside : exe.checkContiguous.run = .ok (.ok ()) → ∀ vpn, counts.sum ≤ vpn →
    exe.sectionFor vpn = .ok none

theorem Counts.hasPage (hc : exe.Counts counts) (hp : exe.PlacedTo 0 counts exe.length)
    (hlt : counts.sum < limit32) (hvpn : vpn < counts.sum) : ∃ i s n, exe.HasPage vpn i s n := by
  obtain ⟨i, n, offset, hn, hoffset, rfl⟩ := exists_offset hvpn
  have hi : i < exe.length := by
    rw [← hc.length_eq]
    exact (List.getElem?_eq_some_iff.1 hn).1
  have hs : exe[i]? = some exe[i] := List.getElem?_eq_getElem hi
  have hfirst : exe[i].firstVpn = (counts.take i).sum := by simpa using hp i exe[i] hi hs
  obtain ⟨n', hn', hpages⟩ := hc.getElem? hs
  obtain rfl : n = n' := Option.some.inj (hn.symm.trans hn')
  have hplace : ∀ {j : Nat} {m d : Nat}, counts[j]? = some m → d < m →
      exe.position? ((counts.take j).sum + d) = .ok (some j) := by
    intro j m d hm hd
    simpa using hc.position?_eq hp (by omega) hm hd
  refine ⟨i, exe[i], n, hplace hn hoffset, ?_, hs, hpages, ?_, ?_, ?_⟩
  · rw [sectionFor, hplace hn hoffset]
    exact congrArg Except.ok hs
  · rw [hfirst]
    exact Nat.le_add_right _ _
  · rw [hfirst, Nat.add_sub_cancel_left]
    exact hoffset
  · intro j s' hs' hcovers
    obtain ⟨m, hm, hpages'⟩ := hc.getElem? hs'
    obtain ⟨hle, hstop⟩ := firstVpn_le_of_covers hpages' hcovers
    have hfirst' : s'.firstVpn = (counts.take j).sum := by
      simpa using hp j s' (List.getElem?_eq_some_iff.1 hs').1 hs'
    have hfound := hplace hm (Nat.sub_lt_left_of_lt_add hle hstop)
    rw [← hfirst', Nat.add_sub_cancel' hle, hplace hn hoffset] at hfound
    exact (Option.some.inj (Except.ok.inj hfound)).symm

/-- Sections with countable pages tile the image when they are placed right, and only then. -/
theorem tiling (hc : exe.Counts counts) (hlt : counts.sum < limit32) : exe.Tiling counts := by
  have hends := hc.checkEnds
  have hplaced : exe.checkContiguous.run = .ok (.ok ()) → exe.PlacedTo 0 counts exe.length := by
    intro hok
    rw [hok] at hends
    cases hends with
    | passes hp => exact hp
  constructor
  case accepts =>
    constructor
    · intro hok i s hs
      exact placedTo_zero.1 (hplaced hok) i s (List.getElem?_eq_some_iff.1 hs).1 hs
    · intro hall
      generalize exe.checkContiguous.run = r at hends
      cases hends with
      | passes => rfl
      | reports _ hs hne => exact absurd (hall _ _ hs) hne
      | overruns _ hle => exact absurd (Nat.lt_of_le_of_lt sum_take_le hlt) (Nat.not_lt.2 hle)
  case reports =>
    intro hnot
    generalize exe.checkContiguous.run = r at hends hnot
    cases hends with
    | passes => exact absurd rfl hnot
    | reports hp hs hne => exact ⟨_, _, hs, hne, placedTo_zero.1 hp, rfl⟩
    | overruns _ hle => exact absurd (Nat.lt_of_le_of_lt sum_take_le hlt) (Nat.not_lt.2 hle)
  case pages =>
    rw [numPages, hc.countFrom_eq (by decide), Nat.zero_add, if_pos hlt]
  case inside =>
    intro hok vpn hvpn
    exact hc.hasPage (hplaced hok) hlt hvpn
  case outside =>
    intro hok vpn hvpn
    have hpages : countFrom 0 exe = .ok counts.sum := by
      rw [hc.countFrom_eq (by decide), Nat.zero_add, if_pos hlt]
    obtain ⟨flags, hflags⟩ := flagList_of_contiguous hok
    have hlength := countFrom_eq_length hpages hflags
    rw [sectionFor, position?_of_le hok hflags (by omega)]
    rfl

end DemandPaging.Executable
