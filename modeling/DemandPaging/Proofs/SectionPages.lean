/-
  Sections held in memory, cut into pages.

  The pages of a section, one after another, are its data with fewer zeroes behind it than a page
  has bytes (`inPages`).  A page is loaded into a buffer of its size, or not at all: a load that
  is refused leaves the buffer and the count of loads as they were (`loadInto_data`).

  * `paging_loses_nothing`: so it is for all data and all sizes of pages whose sum is a 64-bit
    number;
  * `pages_overrun`: the sum may run over although the last byte that it stands for does not.
-/
import DemandPaging.Proofs.ImageBytes

namespace DemandPaging

namespace Section

variable {s : Section} {bytes : Block} {data : Bytes} {n index : Nat} {buffer : Bytes}

/-- Loads page `index` into a buffer, which an error leaves as it is. -/
def loadInto (index : Nat) (buffer : Bytes) (s : Section) :
    Checked (Except SectionError Unit × Bytes × Section) := do
  match ← (load index buffer.length).run.run s with
  | (.ok page, s) => return (.ok (), page, s)
  | (.error e, s) => return (.error e, buffer, s)

/-- The section has `n` pages, which are its data one after another. -/
def InPages (s : Section) (n : Nat) (data : Bytes) : Prop :=
  ∃ pages : List Bytes, pages.length = n ∧ (∀ i < n, s.page i = .ok pages[i]?) ∧
    (∀ page ∈ pages, page.length = s.pageSize) ∧
      ∃ pad < s.pageSize, pages.flatten = data ++ Bytes.zeros pad

/-- A page is loaded if the section has it and the buffer is one page long. -/
structure Loaded (s : Section) (n index : Nat) (buffer : Bytes) (result : Except SectionError Unit)
    (buffer' : Bytes) (s' : Section) : Prop where
  succeeds : result = .ok () ↔ index < n ∧ buffer.length = s.pageSize
  loaded : result = .ok () → s.page index = .ok (some buffer') ∧ s' = { s with loads := s.loads + 1 }
  refused : ∀ e, result = .error e → buffer' = buffer ∧ s' = s ∧
    e = if n ≤ index then .pageOutOfRange s.name index
      else .pageSizeMismatch s.name s.pageSize buffer.length

/-- A page is a page of the padded data. -/
theorem page_data (hdata : s.content = .data bytes) (hsum : s.bytes.length + s.pageSize < limit64)
    (hsize : s.pageSize < limit63) (hin : index < s.pages) :
    s.page index = .ok (some (Bytes.slice s.padded (index * s.pageSize) s.pageSize)) := by
  have hbytes : s.bytes = bytes.toList := by rw [Section.bytes, hdata]
  unfold page
  rw [hdata]
  dsimp only
  rw [pageOfData_eq (hbytes ▸ hsum) hsize (index_lt hsum hin), ← hbytes, ← slice_padded hin]
  rfl

/-- Fewer zeroes are added than a page has bytes. -/
theorem padded_eq (hpos : 0 < s.pageSize) :
    ∃ pad < s.pageSize, s.padded = s.bytes ++ Bytes.zeros pad := by
  refine ⟨s.pages * s.pageSize - s.bytes.length, ?_, rfl⟩
  have hdiv : s.pages * s.pageSize ≤ s.bytes.length + s.pageSize - 1 := Nat.div_mul_le_self _ _
  omega

theorem inPages (hdata : s.content = .data bytes) (hpos : 0 < s.pageSize)
    (hsum : s.bytes.length + s.pageSize < limit64) (hsize : s.pageSize < limit63) :
    s.InPages s.pages s.bytes := by
  have hlen : s.padded.length = s.pages * s.pageSize := length_padded hpos
  refine ⟨(List.range s.pages).map fun i => Bytes.slice s.padded (i * s.pageSize) s.pageSize,
    by simp, ?_, ?_, ?_⟩
  · intro i hi
    rw [page_data hdata hsum hsize hi, List.getElem?_map, List.getElem?_range hi, Option.map_some]
  · intro page hmem
    obtain ⟨i, hi, rfl⟩ := List.mem_map.1 hmem
    exact Bytes.length_slice _ _ _ (hlen ▸ Bytes.unit_le (List.mem_range.1 hi))
  · rw [Bytes.flatten_units, ← hlen, List.take_length]
    exact padded_eq hpos

/-- A load answers the page, or an error that says what is wrong. -/
theorem ends_load_data {len : Nat} (hdata : s.content = .data bytes)
    (hsum : s.bytes.length + s.pageSize < limit64) (hfew : s.pages < limit32)
    (hlen : len < limit63) :
    Ends (fun _ => False) (load index len).run s fun r s' =>
      if index < s.pages ∧ len = s.pageSize then
        ∃ page, r = .ok page ∧ s.page index = .ok (some page) ∧ s' = { s with loads := s.loads + 1 }
      else
        r = .error (if s.pages ≤ index then .pageOutOfRange s.name index
          else .pageSizeMismatch s.name s.pageSize len) ∧ s' = s := by
  have hnum : s.numPages = .ok s.pages := by
    rw [numPages_of_data hdata hsum, Nat.mod_eq_of_lt hfew]
  unfold load
  simp only [ends_bind, ends_get, hdata, ends_lift, hnum, Checked.ends_ok, ends_ite, ends_throw,
    ends_set, ends_pure]
  refine ⟨fun hout => ?_, fun hin => ⟨fun hother => ?_, fun hsame => ?_⟩⟩
  · rw [if_neg (by omega), if_pos hout]
    exact ⟨rfl, trivial⟩
  · rw [if_neg (fun hboth => hother hboth.2), if_neg hin]
    exact ⟨rfl, trivial⟩
  · have hindex : index < s.pages := Nat.not_le.1 hin
    obtain rfl : len = s.pageSize := Classical.not_not.1 hsame
    have hpage := page_data hdata hsum hlen hindex
    have hbytes : s.bytes = bytes.toList := by rw [Section.bytes, hdata]
    rw [pageOfData_eq (hbytes ▸ hsum) hlen (index_lt hsum hindex), Checked.ends_ok,
      if_pos ⟨hindex, rfl⟩, ← hbytes, ← slice_padded hindex]
    exact ⟨_, rfl, hpage, trivial⟩

/-- A load into a buffer. -/
theorem loadInto_data (hdata : s.content = .data bytes)
    (hsum : s.bytes.length + s.pageSize < limit64) (hfew : s.pages < limit32)
    (hbuffer : buffer.length < limit63) :
    ∃ result buffer' s', loadInto index buffer s = .ok (result, buffer', s') ∧
      Loaded s s.pages index buffer result buffer' s' := by
  obtain ⟨r, s', hrun, hends⟩ := ends_iff_eq_ok.1 (ends_load_data hdata hsum hfew hbuffer)
  unfold loadInto
  rw [hrun]
  split at hends
  · next hboth =>
    obtain ⟨page, rfl, hpage, rfl⟩ := hends
    exact ⟨_, _, _, rfl, ⟨fun _ => hboth, fun _ => rfl⟩, fun _ => ⟨hpage, rfl⟩, nofun⟩
  · next hnot =>
    obtain ⟨rfl, rfl⟩ := hends
    refine ⟨_, _, _, rfl, ⟨nofun, fun hboth => absurd hboth hnot⟩, nofun, ?_⟩
    rintro e ⟨⟩
    exact ⟨rfl, rfl, rfl⟩

/-! ## Sections that are too large -/

theorem numPages_over (hdata : s.content = .data bytes)
    (hover : limit64 ≤ s.bytes.length + s.pageSize) : s.numPages = .error .overflow := by
  have hsize : s.bytes.length = bytes.size := by rw [Section.bytes, hdata, Block.size_eq]
  unfold numPages
  rw [hdata]
  dsimp only
  rw [addBelow, if_neg (by omega)]
  rfl

/-- A page that is too large is not set aside. -/
theorem page_over (hdata : s.content = .data bytes) (hlarge : limit63 ≤ s.pageSize) :
    s.page index = .error .tooLarge := by
  unfold page pageOfData
  rw [hdata]
  dsimp only
  rw [Checked.reserve, Nat.mul_one, Checked.require, decide_eq_false (Nat.not_lt.2 hlarge)]
  rfl

theorem loadInto_over (hdata : s.content = .data bytes)
    (hover : limit64 ≤ s.bytes.length + s.pageSize) :
    loadInto index buffer s = .error .overflow := by
  have hnum : (liftM s.numPages : Action Section SectionError Nat).run.run s = .error .overflow := by
    rw [numPages_over hdata hover]
    rfl
  have hload : (load index buffer.length).run.run s = .error .overflow := by
    unfold load
    refine (run_bind_of_ok rfl).trans ?_
    rw [hdata]
    exact run_bind_of_stop hnum
  rw [loadInto, hload]
  rfl

/-! ## Sections as they are made -/

theorem ofData_eq {name : String} {firstVpn pageSize : Nat} {readOnly : Bool} (hpos : 0 < pageSize) :
    ofData name firstVpn readOnly pageSize data =
      .ok ⟨name, firstVpn, readOnly, pageSize, .data (.ofList data), 0⟩ := by
  rw [ofData, Checked.require, decide_eq_true hpos]
  rfl

end Section

/-- The pages of a section, one after another, are its data padded with zeroes, and each of them
    is loaded into a buffer of its size and into no other. -/
theorem paging_loses_nothing {name : String} {firstVpn pageSize : Nat} {readOnly : Bool}
    {data : Bytes} (hpos : 0 < pageSize) (hsum : data.length + pageSize < limit64)
    (hfew : (data.length + pageSize - 1) / pageSize < limit32) :
    ∃ s n, Section.ofData name firstVpn readOnly pageSize data = .ok s ∧ s.numPages = .ok n ∧
      (pageSize < limit63 → s.InPages n data) ∧
        ∀ loads index (buffer : Bytes), buffer.length < limit63 →
          ∃ result buffer' s',
            Section.loadInto index buffer { s with loads } = .ok (result, buffer', s') ∧
              Section.Loaded { s with loads } n index buffer result buffer' s' := by
  let s : Section := ⟨name, firstVpn, readOnly, pageSize, .data (.ofList data), 0⟩
  have hbytes : s.bytes = data := Block.toList_ofList data
  have hpages : s.pages = (data.length + pageSize - 1) / pageSize := by rw [Section.pages, hbytes]
  have hsum' : s.bytes.length + s.pageSize < limit64 := hbytes ▸ hsum
  have hfew' : s.pages < limit32 := hpages ▸ hfew
  refine ⟨s, s.pages, Section.ofData_eq hpos, ?_, fun hsize => ?_, fun loads index buffer hbuffer => ?_⟩
  · rw [Section.numPages_of_data rfl hsum', Nat.mod_eq_of_lt hfew']
  · exact hbytes ▸ Section.inPages rfl hpos hsum' hsize
  · have hdata : ({ s with loads } : Section).content = .data (.ofList data) := rfl
    exact Section.loadInto_data hdata hsum' hfew' hbuffer

/-- Two pages of four bytes for five: the second one is loaded into a buffer of four bytes, but not
    into one of five, and there is no third. -/
theorem paging_loses_nothing_of_tail : 0 < 4 ∧ [1, 2, 3, 4, 5].length + 4 < limit64 ∧
    ([1, 2, 3, 4, 5].length + 4 - 1) / 4 < limit32 ∧
    ∃ s, Section.ofData ".data" 0 false 4 [1, 2, 3, 4, 5] = .ok s ∧ s.numPages = .ok 2 ∧
      s.page 1 = .ok (some [5, 0, 0, 0]) ∧
      (∃ s', Section.loadInto 1 [9, 9, 9, 9] s = .ok (.ok (), [5, 0, 0, 0], s') ∧ s'.loads = 1) ∧
      Section.loadInto 1 [9, 9, 9, 9, 9] s =
        .ok (.error (.pageSizeMismatch ".data" 4 5), [9, 9, 9, 9, 9], s) ∧
      Section.loadInto 2 [9, 9, 9, 9] s =
        .ok (.error (.pageOutOfRange ".data" 2), [9, 9, 9, 9], s) := by
  have hsum : [1, 2, 3, 4, 5].length + 4 < limit64 := by decide
  have hfew : ([1, 2, 3, 4, 5].length + 4 - 1) / 4 < limit32 := by decide
  obtain ⟨s, n, hmade, hn, -, hload⟩ :
      ∃ s n, Section.ofData ".data" 0 false 4 [1, 2, 3, 4, 5] = .ok s ∧ _ :=
    paging_loses_nothing (by decide) hsum hfew
  cases (Section.ofData_eq (by decide)).symm.trans hmade
  have htwo : Section.numPages ⟨".data", 0, false, 4, .data (.ofList [1, 2, 3, 4, 5]), 0⟩ = .ok 2 := rfl
  have hpage : Section.page ⟨".data", 0, false, 4, .data (.ofList [1, 2, 3, 4, 5]), 0⟩ 1 =
      .ok (some [5, 0, 0, 0]) := rfl
  obtain rfl : 2 = n := Except.ok.inj (htwo.symm.trans hn)
  refine ⟨by decide, hsum, hfew, _, hmade, hn, hpage, ?_, ?_, ?_⟩
  · obtain ⟨result, buffer, s', hrun, h⟩ := hload 0 1 [9, 9, 9, 9] (by decide)
    obtain rfl : result = .ok () := h.succeeds.2 (by decide)
    obtain ⟨hthere, rfl⟩ := h.loaded rfl
    obtain rfl : [5, 0, 0, 0] = buffer := Option.some.inj (Except.ok.inj (hpage.symm.trans hthere))
    exact ⟨_, hrun, rfl⟩
  · obtain ⟨result, buffer, s', hrun, h⟩ := hload 0 1 [9, 9, 9, 9, 9] (by decide)
    cases result with
    | ok _ => exact absurd (h.succeeds.1 rfl) (by decide)
    | error e =>
      obtain ⟨rfl, rfl, rfl⟩ := h.refused e rfl
      exact hrun
  · obtain ⟨result, buffer, s', hrun, h⟩ := hload 0 2 [9, 9, 9, 9] (by decide)
    cases result with
    | ok _ => exact absurd (h.succeeds.1 rfl) (by decide)
    | error e =>
      obtain ⟨rfl, rfl, rfl⟩ := h.refused e rfl
      exact hrun

/-- The sum of the sizes runs over, and a page of that size cannot be set aside, although the sum
    less one is a 64-bit number and one page is enough. -/
theorem pages_overrun : ∃ s,
    Section.ofData ".text" 0 true 18446744073709551615 [1] = .ok s ∧
    [1].length + 18446744073709551615 - 1 < limit64 ∧
    ([1].length + 18446744073709551615 - 1) / 18446744073709551615 = 1 ∧
    s.numPages = .error .overflow ∧ s.page 0 = .error .tooLarge ∧
    Section.loadInto 0 [14, 14, 14, 14] s = .error .overflow := by
  let s : Section := ⟨".text", 0, true, 18446744073709551615, .data (.ofList [1]), 0⟩
  have hbytes : s.bytes = [1] := Block.toList_ofList [1]
  have hover : limit64 ≤ s.bytes.length + s.pageSize := by
    rw [hbytes]
    decide
  exact ⟨s, Section.ofData_eq (by decide), by decide, by decide, Section.numPages_over rfl hover,
    Section.page_over rfl (by decide), Section.loadInto_over rfl hover⟩

end DemandPaging
