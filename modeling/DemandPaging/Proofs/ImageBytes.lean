/-
  The bytes of an executable that is held in memory.

  The image of an executable is the data of its sections, each padded with zeroes to whole
  pages; an address space is the image, followed by the zeroes of the stack.  A load answers
  the page of the image that it is asked for (`loadAt_eq`, `page_of_contiguous`), and stops
  for no reason (`InMemory.loads`).
-/
import DemandPaging.Proofs.Image
import DemandPaging.Proofs.Ranges
import Mathlib.Algebra.GroupWithZero.Nat

namespace DemandPaging

/-! ## Sections -/

namespace Section

variable {V : Violation → Prop} {s : Section} {vpn : Vpn} {index : Nat}

/-- The data of a section. -/
def bytes (s : Section) : Bytes :=
  match s.content with
  | .data bytes => bytes.toList
  | .reader _ _ => []

/-- The number of pages that the data takes. -/
def pages (s : Section) : Nat := (s.bytes.length + s.pageSize - 1) / s.pageSize

/-- The data, padded with zeroes to whole pages. -/
def padded (s : Section) : Bytes := Bytes.extend s.bytes (s.pages * s.pageSize)

/-- The section is held in memory, where nothing is as large as half of what 64 bits can
    count. -/
structure InMemory (s : Section) : Prop where
  data : ∃ bytes, s.content = .data bytes
  bytes_lt : s.bytes.length < limit63
  pageSize_lt : s.pageSize < limit63

theorem length_bytes_le (hsize : 0 < s.pageSize) : s.bytes.length ≤ s.pages * s.pageSize := by
  have hlt : s.bytes.length + s.pageSize - 1 < s.pages * s.pageSize + s.pageSize := by
    have hmod := Nat.mod_lt (s.bytes.length + s.pageSize - 1) hsize
    have hdiv := Nat.div_add_mod' (s.bytes.length + s.pageSize - 1) s.pageSize
    unfold pages
    omega
  omega

theorem length_padded (hsize : 0 < s.pageSize) : s.padded.length = s.pages * s.pageSize := by
  have hle := length_bytes_le hsize
  rw [padded, Bytes.extend, List.length_append, Bytes.length_zeros]
  omega

theorem InMemory.sum_lt (h : s.InMemory) : s.bytes.length + s.pageSize < limit64 := by
  have hbytes := h.bytes_lt
  have hsize := h.pageSize_lt
  unfold limit63 at hbytes hsize
  unfold limit64
  omega

theorem numPages_of_data {bytes : Block} (hdata : s.content = .data bytes)
    (hsum : s.bytes.length + s.pageSize < limit64) : s.numPages = .ok (s.pages % limit32) := by
  have hsize : s.bytes.length = bytes.size := by rw [Section.bytes, hdata, Block.size_eq]
  have htotal : addBelow limit64 bytes.size s.pageSize = .ok (bytes.size + s.pageSize) :=
    addBelow_eq_ok_iff.2 ⟨rfl, hsize ▸ hsum⟩
  unfold numPages
  rw [hdata]
  change (addBelow limit64 bytes.size s.pageSize >>= fun total => _) = _
  rw [htotal]
  change Except.ok ((bytes.size + s.pageSize - 1) / s.pageSize % limit32) = _
  rw [pages, hsize]

theorem numPages_data (h : s.InMemory) : s.numPages = .ok (s.pages % limit32) := by
  obtain ⟨bytes, hdata⟩ := h.data
  exact numPages_of_data hdata h.sum_lt

theorem numPages_eq (h : s.InMemory) (hlt : s.pages < limit32) : s.numPages = .ok s.pages := by
  rw [numPages_data h, Nat.mod_eq_of_lt hlt]

/-- What is left of the data from a place on, as far as the page goes. -/
theorem pageOfData_eq {pageSize : Nat} {bytes : Block}
    (hsum : bytes.toList.length + pageSize < limit64) (hsize : pageSize < limit63)
    (hstart : index * pageSize < limit64) :
    pageOfData pageSize bytes index =
      .ok (Bytes.extend (Bytes.slice bytes.toList (index * pageSize) pageSize) pageSize) := by
  have hreserve : Checked.reserve pageSize 1 = .ok () := by
    rw [Checked.reserve, Checked.require, if_pos (by simpa using hsize)]
  have hmul : mulBelow limit64 index pageSize = .ok (index * pageSize) :=
    mulBelow_eq_ok_iff.2 ⟨rfl, hstart⟩
  have hadd : ∀ start, addBelow limit64 (min start bytes.size) pageSize =
      .ok (min start bytes.size + pageSize) := by
    intro start
    refine addBelow_eq_ok_iff.2 ⟨rfl, ?_⟩
    rw [Block.size_eq]
    omega
  unfold pageOfData
  rw [hreserve]
  change (mulBelow limit64 index pageSize >>= fun start => _) = _
  rw [hmul]
  change (addBelow limit64 (min (index * pageSize) bytes.size) pageSize >>= fun stop => _) = _
  rw [hadd]
  refine congrArg (fun l => Except.ok (Bytes.extend l pageSize)) (List.ext_getElem? fun i => ?_)
  rw [Block.slice_eq, Bytes.getElem?_slice, Bytes.getElem?_slice, Block.size_eq]
  generalize index * pageSize = start
  rcases Nat.le_total start bytes.toList.length with hle | hle
  · rw [Nat.min_eq_left hle]
    by_cases hin : start + i < bytes.toList.length
    · congr 1
      exact propext (by omega)
    · rw [List.getElem?_eq_none (by omega), ite_self, ite_self]
  · rw [Nat.min_eq_right hle, if_neg (by omega), List.getElem?_eq_none (by omega), ite_self]

/-- A page of the data is a page of the padded data. -/
theorem slice_padded (hin : index < s.pages) :
    Bytes.slice s.padded (index * s.pageSize) s.pageSize =
      Bytes.extend (Bytes.slice s.bytes (index * s.pageSize) s.pageSize) s.pageSize := by
  have hunit : index * s.pageSize + s.pageSize ≤ s.pages * s.pageSize := Bytes.unit_le hin
  rcases Nat.eq_zero_or_pos s.pageSize with hzero | hpos
  · rw [pages, hzero, Nat.div_zero] at hin
    cases hin
  · have hwhole : (Bytes.extend s.bytes (s.pages * s.pageSize)).take (s.pages * s.pageSize) =
        s.padded := List.take_of_length_le (Nat.le_of_eq (length_padded hpos))
    rw [← hwhole, Bytes.slice_padded _ _ _ _ hunit]

theorem index_lt (hsum : s.bytes.length + s.pageSize < limit64) (hin : index < s.pages) :
    index * s.pageSize < limit64 := by
  have hunit : index * s.pageSize + s.pageSize ≤ s.pages * s.pageSize := Bytes.unit_le hin
  have hdiv : s.pages * s.pageSize ≤ s.bytes.length + s.pageSize - 1 := Nat.div_mul_le_self _ _
  omega

/-- A load of a section in memory answers the page, if there is one. -/
theorem ends_loadAt_data (h : s.InMemory) {Q : Except SectionError Bytes → Section → Prop}
    (hmissing : s.pages % limit32 ≤ vpn - s.firstVpn →
      Q (.error (.pageOutOfRange s.name (vpn - s.firstVpn))) s)
    (hpage : vpn - s.firstVpn < s.pages % limit32 →
      Q (.ok (Bytes.slice s.padded ((vpn - s.firstVpn) * s.pageSize) s.pageSize))
        { s with loads := s.loads + 1 }) : Ends V (loadAt vpn s.pageSize).run s Q := by
  obtain ⟨bytes, hdata⟩ := h.data
  have hbytes : s.bytes = bytes.toList := by rw [Section.bytes, hdata]
  unfold loadAt load
  simp only [ends_bind, ends_get, hdata, ends_lift, numPages_data h, Checked.ends_ok, ends_ite,
    ends_throw, ends_set, ends_pure, ne_eq, not_true_eq_false, not_false_eq_true, false_imp_iff,
    true_imp_iff, true_and]
  refine ⟨hmissing, fun hthere => ?_⟩
  have hin : vpn - s.firstVpn < s.pages % limit32 := Nat.not_le.1 hthere
  have hlt : vpn - s.firstVpn < s.pages := Nat.lt_of_lt_of_le hin (Nat.mod_le _ _)
  rw [pageOfData_eq (hbytes ▸ h.sum_lt) h.pageSize_lt (index_lt h.sum_lt hlt), Checked.ends_ok, ← hbytes,
    ← slice_padded hlt, ← hdata]
  exact hpage hin

/-- Loading stops for no reason. -/
theorem InMemory.loads (h : s.InMemory) : s.Loads V := by
  intro vpn loads
  have h' : InMemory { s with loads } := ⟨h.data, h.bytes_lt, h.pageSize_lt⟩
  exact ends_loadAt_data h' (fun _ => trivial) fun _ => trivial

theorem InMemory.lt_of_covers (h : s.InMemory) (hcovers : s.covers vpn = .ok true) :
    vpn - s.firstVpn < s.pages % limit32 := by
  have hends : Checked.Ends (fun _ => True) (s.covers vpn) fun hit =>
      hit = true → vpn - s.firstVpn < s.pages % limit32 := by
    simp only [covers, numPages_data h, Checked.ends_ite, Checked.ends_bind, Checked.ends_pure,
      Checked.ends_ok, Checked.ends_addBelow, implies_true, and_true, decide_eq_true_eq]
    exact ⟨fun _ hfalse => Bool.noConfusion hfalse, fun hle _ hlt =>
      Nat.sub_lt_left_of_lt_add (Nat.not_lt.1 hle) hlt⟩
  exact (Checked.ends_of_eq_ok hcovers).1 hends rfl

/-- A section in memory delivers the pages that it covers. -/
theorem InMemory.delivers (h : s.InMemory) (hcovers : s.covers vpn = .ok true) :
    Ends V (loadAt vpn s.pageSize).run s fun r _ => ∃ page, r = .ok page :=
  ends_loadAt_data h (fun hle => absurd (h.lt_of_covers hcovers) (Nat.not_lt.2 hle))
    fun _ => ⟨_, rfl⟩

/-- What a section in memory has loaded is what it has there. -/
theorem loadAt_data {s' : Section} {page : Bytes} (h : s.InMemory)
    (hload : (loadAt vpn s.pageSize).run.run s = .ok (.ok page, s')) :
    page = Bytes.slice s.padded ((vpn - s.firstVpn) * s.pageSize) s.pageSize := by
  have hends : Ends (fun _ => True) (loadAt vpn s.pageSize).run s fun r _ =>
      ∀ page, r = .ok page →
        page = Bytes.slice s.padded ((vpn - s.firstVpn) * s.pageSize) s.pageSize :=
    ends_loadAt_data h (fun _ _ hr => nomatch hr) fun _ _ hr => (Except.ok.inj hr).symm
  exact hends.of_run hload page rfl

end Section

/-! ## Executables -/

namespace Executable

variable {exe : Executable} {start i pageSize : Nat}

/-- The image of an executable. -/
def bytes (exe : Executable) : Bytes := exe.flatMap Section.padded

/-- The number of pages of the image. -/
def pages (exe : Executable) : Nat := (exe.map Section.pages).sum

theorem bytes_cons {s : Section} : bytes (s :: exe) = s.padded ++ exe.bytes := List.flatMap_cons

theorem pages_cons {s : Section} : pages (s :: exe) = s.pages + exe.pages := List.sum_cons

@[simp] theorem bytes_unloaded : exe.unloaded.bytes = exe.bytes := List.flatMap_map _ _ _

@[simp] theorem pages_unloaded : exe.unloaded.pages = exe.pages :=
  congrArg List.sum List.map_map

theorem length_bytes (hpos : 0 < pageSize) (hsize : ∀ s ∈ exe, s.pageSize = pageSize) :
    exe.bytes.length = exe.pages * pageSize := by
  induction exe with
  | nil => simp [bytes, pages]
  | cons s rest ih =>
    have hs : s.pageSize = pageSize := hsize s List.mem_cons_self
    rw [bytes_cons, pages_cons, List.length_append, Section.length_padded (hs ▸ hpos), hs,
      ih fun s' hmem => hsize s' (List.mem_cons_of_mem s hmem), Nat.add_mul]

theorem countFrom_eq (hmem : ∀ s ∈ exe, s.InMemory) (hfit : start + exe.pages < limit32) :
    countFrom start exe = .ok (start + exe.pages) := by
  induction exe generalizing start with
  | nil => rfl
  | cons s rest ih =>
    rw [pages_cons] at hfit ⊢
    have hsum : addBelow limit32 start s.pages = .ok (start + s.pages) :=
      addBelow_eq_ok_iff.2 ⟨rfl, by omega⟩
    have hrest : countFrom (start + s.pages) rest = .ok (start + s.pages + pages rest) :=
      ih (fun s' hs' => hmem s' (List.mem_cons_of_mem s hs')) (by omega)
    unfold countFrom
    rw [Section.numPages_eq (hmem s List.mem_cons_self) (by omega)]
    change (addBelow limit32 start s.pages >>= fun total => countFrom total rest) = _
    rw [hsum, ← Nat.add_assoc]
    exact hrest

theorem length_flags {flags : List Bool} (hmem : ∀ s ∈ exe, s.InMemory) (hfit : exe.pages < limit32)
    (hflags : exe.flagList = .ok flags) : flags.length = exe.pages := by
  have hcount : countFrom 0 exe = .ok (0 + exe.pages) := countFrom_eq hmem (by omega)
  have hlength := countFrom_eq_length hcount hflags
  omega

/-- Whether sections follow one another can be told. -/
theorem contiguousFrom_returns (hmem : ∀ s ∈ exe, s.InMemory) (hfit : start + exe.pages < limit32) :
    ∃ r, (exe.contiguousFrom start).run = .ok r := by
  induction exe generalizing start with
  | nil => exact ⟨_, rfl⟩
  | cons s rest ih =>
    rw [pages_cons] at hfit
    by_cases hfirst : s.firstVpn = start
    · have hsum : addBelow limit32 start s.pages = .ok (start + s.pages) :=
        addBelow_eq_ok_iff.2 ⟨rfl, by omega⟩
      obtain ⟨r, hr⟩ : ∃ r, (contiguousFrom (start + s.pages) rest).run = .ok r :=
        ih (fun s' hs' => hmem s' (List.mem_cons_of_mem s hs')) (by omega)
      refine ⟨r, ?_⟩
      unfold contiguousFrom
      rw [if_neg (Classical.not_not.2 hfirst), Section.numPages_eq (hmem s List.mem_cons_self) (by omega)]
      change (liftM (addBelow limit32 start s.pages) >>= fun stop =>
        contiguousFrom stop rest : Attempt PagingError Unit).run = _
      rw [hsum]
      exact hr
    · refine ⟨.error (.fragmentedExecutable s.name s.firstVpn start), ?_⟩
      unfold contiguousFrom
      rw [if_pos hfirst]
      rfl

/-- The section that a page of contiguous sections lies in has the bytes that the image has
    there. -/
theorem page_of_contiguous (hpos : 0 < pageSize) (hsize : ∀ s ∈ exe, s.pageSize = pageSize)
    (hmem : ∀ s ∈ exe, s.InMemory) (hfit : exe.pages < limit32)
    (h : (exe.contiguousFrom start).run = .ok (.ok ())) (hin : i < exe.pages) {j : Nat} {s : Section}
    (hposition : exe.position? (start + i) = .ok (some j)) (hj : exe[j]? = some s) :
    Bytes.slice exe.bytes (i * pageSize) pageSize =
      Bytes.slice s.padded ((start + i - s.firstVpn) * pageSize) pageSize := by
  induction exe generalizing start i j with
  | nil => cases hin
  | cons s₀ rest ih =>
    have hs₀ : s₀.pageSize = pageSize := hsize s₀ List.mem_cons_self
    have hlen : s₀.padded.length = s₀.pages * pageSize := hs₀ ▸ Section.length_padded (hs₀ ▸ hpos)
    rw [pages_cons] at hfit hin
    obtain ⟨hfirst, n, hn, hlt, hrest⟩ := contiguousFrom_cons h
    rw [Section.numPages_eq (hmem s₀ List.mem_cons_self) (by omega)] at hn
    cases hn
    have hcovers := Section.covers_eq hfirst
      (Section.numPages_eq (hmem s₀ List.mem_cons_self) (by omega)) hlt (Nat.le_add_right start i)
    unfold position? at hposition
    rw [hcovers] at hposition
    rw [bytes_cons]
    by_cases hi : i < s₀.pages
    · rw [decide_eq_true (by omega)] at hposition
      cases hposition
      cases hj
      rw [hfirst, Nat.add_sub_cancel_left]
      exact Bytes.slice_append_left _ _ _ _ (hlen ▸ Bytes.unit_le hi)
    · rw [decide_eq_false (by omega)] at hposition
      cases hnext : position? rest (start + i) with
      | error v =>
        rw [hnext] at hposition
        cases hposition
      | ok o =>
        rw [hnext] at hposition
        obtain ⟨j', rfl, rfl⟩ := Option.map_eq_some_iff.1 (Except.ok.inj hposition)
        have hplace : start + s₀.pages + (i - s₀.pages) = start + i := by omega
        rw [← hplace] at hnext
        have hfound := ih (fun s' hs' => hsize s' (List.mem_cons_of_mem s₀ hs'))
          (fun s' hs' => hmem s' (List.mem_cons_of_mem s₀ hs')) (by omega) hrest (by omega) hnext hj
        rw [hplace] at hfound
        refine (Bytes.slice_append_right _ _ _ _ ?_).trans ?_
        · exact hlen ▸ Nat.mul_le_mul_right _ (Nat.not_lt.1 hi)
        · rw [hlen, ← Nat.sub_mul]
          exact hfound

end Executable

end DemandPaging
