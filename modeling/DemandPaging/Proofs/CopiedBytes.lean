/-
  The bytes that a copy leaves behind.

  A copy that writes replaces the bytes before the page that it stops at, and no others
  (`Overwrites`).  On its way pages are brought in, and others lose their frames for them.  They
  keep their bytes, unless a page without a mark is dropped whose bytes are not those that it came
  with (`Lasts`); only pages that are too small for a word may be like that (`Reachable.original`).

  * `Reachable.copies_cover`: what the copies of a reachable kernel do.
-/
import DemandPaging.Proofs.AddressSpaces
import DemandPaging.Proofs.CopyRange

namespace DemandPaging.Kernel

variable {σ : Type} {content : σ → Nat → UInt8} {c : Conduct σ} {pins pins' : Frame → Nat}
  {k k' k₁ : Kernel σ} {pid q : Pid} {v w : Vpn} {e' : PageEntry} {f : Frame} {log : List Access}
  {write : Bool} {a start vaddr n : Nat} {bytes more copied : Bytes} {pieces : List Bytes}
  {chunk : Chunk} {list before after : List Chunk}

/-! ## Blank pages -/

/-- No page without content of its own has come back from swap. -/
def Blank (k : Kernel σ) : Prop := ∀ q w e, k.residency.page? q w = some e → e.Blank

theorem Course.blank (hcourse : Course c pins k log k') (h : k.Blank) : k'.Blank := by
  refine hcourse.preserves h (fun _ _ hstep h q w e' he' => ?_)
    (fun _ _ _ _ _ _ hacc h q w e' he' => ?_) fun _ _ h => h
  · cases hstep.traced h he' with
    | kept he hsame => exact hsame.blank (h q w _ he)
    | made _ _ hblank => exact hblank
  · obtain ⟨e, he, -, hblank, -⟩ := hacc.traced he'
    exact hblank (h q w e he)

theorem Blank.referenced {e : PageEntry} {i : Nat} (h : k.Blank)
    (he : k.residency.page? pid v = some e) (hs : e.state = .resident f) :
    (k.referenced pid v (e.touch write) f i).Blank := by
  intro q w e' he'
  rw [Kernel.referenced, Residency.page?_link he] at he'
  split at he'
  · cases he'
    exact PageEntry.blank_of_resident hs
  · exact h q w e' he'

theorem Operated.blank {op : Operation} (hop : Operated c pins k op pins' k') (h : k.Blank) :
    k'.Blank := by
  cases hop with
  | ran _ hcourse => exact hcourse.blank h
  | pinned _ hcourse he hs => exact (hcourse.blank h).referenced he hs
  | unpinned hun => exact fun q w e' he' => h q w e' (hun.page?.symm.trans he')

theorem Reachable.blank [BackingStore σ] (h : k.Reachable) : k.Blank := by
  induction h with
  | fresh h =>
    intro q w e he
    cases (Residency.page?_of_nil ((Checked.ends_of_eq_ok h).1 ends_boot_fresh).empty).symm.trans he
  | step h hrun ih =>
    obtain ⟨pins, hsound, htlb⟩ := h.sound
    obtain ⟨pins', hop⟩ := (ends_operated .any hsound htlb).of_run hrun
    exact hop.blank ih

/-! ## Bytes that last -/

/-- Whether a page is marked as changed, if there is such a page. -/
def changed? (k : Kernel σ) (pid : Pid) (v : Vpn) : Option Bool :=
  (k.residency.page? pid v).map (·.changed k.tlb.mappings)

/-- The byte that an address comes with. -/
def firstByte? (k : Kernel σ) (pid : Pid) (a : Nat) : Option UInt8 :=
  (k.firstPage? pid (pageOf k.memory.pageSize a)).bind (·[offsetIn k.memory.pageSize a]?)

/-- The byte at address `a` of process `q` is the same, and its page marked if it was; or the page
    was not marked, and the byte is that which the address came with. -/
inductive Lasts (content : σ → Nat → UInt8) (k k' : Kernel σ) (q : Pid) (a : Nat) : Prop where
  | kept (hbyte : k'.byteAt? content q a = k.byteAt? content q a)
    (hmark : k.changed? q (pageOf k.memory.pageSize a) = some true →
      k'.changed? q (pageOf k.memory.pageSize a) = some true)
  | dropped (hclean : k.changed? q (pageOf k.memory.pageSize a) = some false)
    (hbyte : k'.byteAt? content q a = k.firstByte? q a)

theorem Keeps.changed?_isSome (hkeeps : k.Keeps k') :
    (k'.changed? q w).isSome = (k.changed? q w).isSome := by
  simp only [changed?, Option.isSome_map]
  cases he : k.residency.page? q w with
  | none => rw [hkeeps.page?_eq_none he]
  | some e =>
    obtain ⟨e', he'⟩ := hkeeps.exists_page he
    rw [he']
    rfl

theorem Keeps.firstByte? (hkeeps : k.Keeps k') : k'.firstByte? q a = k.firstByte? q a := by
  have hprogram : k'.program? q = k.program? q := by
    rw [program?, program?, hkeeps.outline, hkeeps.images]
  rw [Kernel.firstByte?, Kernel.firstByte?, hkeeps.pageSize,
    firstPage?_congr hkeeps.pageSize hprogram]

theorem Lasts.trans (h : Lasts content k k₁ q a) (h' : Lasts content k₁ k' q a)
    (hkeeps : k.Keeps k₁) : Lasts content k k' q a := by
  have hsize := hkeeps.pageSize
  have hfirst : k₁.firstByte? q a = k.firstByte? q a := hkeeps.firstByte?
  cases h' with
  | kept hbyte' hmark' =>
    rw [hsize] at hmark'
    cases h with
    | kept hbyte hmark => exact .kept (hbyte'.trans hbyte) fun hm => hmark' (hmark hm)
    | dropped hclean hbyte => exact .dropped hclean (hbyte'.trans hbyte)
  | dropped hclean' hbyte' =>
    rw [hsize] at hclean'
    refine .dropped ?_ (hbyte'.trans hfirst)
    cases h with
    | dropped hclean => exact hclean
    | kept _ hmark =>
      -- a page that has no mark then had none before
      have hthere := hkeeps.changed?_isSome (q := q) (w := pageOf k.memory.pageSize a)
      rw [hclean'] at hthere
      obtain ⟨marked, hm⟩ := Option.isSome_iff_exists.1 hthere.symm
      cases marked with
      | false => exact hm
      | true => cases hclean'.symm.trans (hmark hm)

/-- Steps keep marks, and the content of pages; what has no mark may be as it came. -/
theorem Steps.pageBytes? (hsteps : Steps (arrayConduct content) pins k k') (hblank : k.Blank)
    (hq : q < k.residency.nextPid) (he' : k'.residency.page? q w = some e') :
    k'.changed? q w = k.changed? q w ∧ (k'.pageBytes? content q w = k.pageBytes? content q w ∨
      k.changed? q w = some false ∧ k'.pageBytes? content q w = k.firstPage? q w) := by
  induction hsteps generalizing e' with
  | refl => exact ⟨rfl, .inl rfl⟩
  | @tail k₁ k₂ hsteps hstep ih =>
    have hcourse := Steps.course hsteps
    cases hstep.traced (hcourse.blank hblank) he' with
    | made hnew => exact absurd (Nat.lt_of_lt_of_le hq hcourse.nextPid_le) (Nat.not_lt.2 hnew)
    | @kept e he hsame =>
      obtain ⟨hmark, hbytes⟩ := ih he
      have hmark' : k₂.changed? q w = k.changed? q w := by
        rw [← hmark, changed?, changed?, he', he, Option.map_some, Option.map_some, hsame.changed]
      refine ⟨hmark', ?_⟩
      cases hhold : k₂.holding content e'.state with
      | some bytes =>
        rw [pageBytes?_of_holding he' hhold, ← (hstep.holding he' hhold).pageBytes?]
        exact hbytes
      | none =>
        refine .inr ⟨?_, ?_⟩
        · rw [← hmark', changed?, he', Option.map_some,
            PageEntry.changed_absent (absent_of_holding hhold)]
        · rw [pageBytes?_of_absent he' hhold]
          exact (hcourse.step hstep).firstPage? hq he'

theorem Steps.lasts (hsteps : Steps (arrayConduct content) pins k k') (hkeeps : k.Keeps k')
    (hblank : k.Blank) : Lasts content k k' q a := by
  have hsize := hkeeps.pageSize
  cases he : k.residency.page? q (pageOf k.memory.pageSize a) with
  | none =>
    have he' := hkeeps.page?_eq_none he
    refine .kept ?_ ?_
    · rw [byteAt?, byteAt?, hsize, Kernel.pageBytes?, Kernel.pageBytes?, he, he']
      rfl
    · rw [changed?, he]
      rintro ⟨⟩
  | some e =>
    obtain ⟨p, hp, -⟩ := Residency.page?_eq_some_iff.1 he
    obtain ⟨e', he'⟩ := hkeeps.exists_page he
    obtain ⟨hmark, hbytes | ⟨hclean, hbytes⟩⟩ :=
      hsteps.pageBytes? hblank (Residency.lt_nextPid hp) he'
    · exact .kept (by rw [byteAt?, byteAt?, hsize, hbytes]) fun hm => hmark.trans hm
    · exact .dropped hclean (by rw [byteAt?, firstByte?, hsize, hbytes])

theorem Lasts.refl : Lasts content k k q a := .kept rfl id

/-! ## Bytes that are replaced -/

/-- The bytes from `start` on of process `pid` are `bytes`, on pages that are marked, and all other
    bytes last. -/
structure Overwrites (content : σ → Nat → UInt8) (pid : Pid) (start : Nat) (bytes : Bytes)
    (k k' : Kernel σ) : Prop where
  written : ∀ {i b}, bytes[i]? = some b → k'.byteAt? content pid (start + i) = some b ∧
    k'.changed? pid (pageOf k.memory.pageSize (start + i)) = some true
  others : ∀ {q a}, ¬ (q = pid ∧ start ≤ a ∧ a < start + bytes.length) → Lasts content k k' q a

theorem Overwrites.nil (h : ∀ q a, Lasts content k k' q a) :
    Overwrites content pid start [] k k' where
  written h := nomatch h
  others _ := h _ _

/-- Bytes that are written are not written over by those that follow them. -/
theorem Overwrites.append (h : Overwrites content pid start bytes k k₁)
    (h' : Overwrites content pid (start + bytes.length) more k₁ k') (hkeeps : k.Keeps k₁) :
    Overwrites content pid start (bytes ++ more) k k' where
  written := by
    intro i b hb
    have hsize := hkeeps.pageSize
    by_cases hi : i < bytes.length
    · rw [List.getElem?_append_left hi] at hb
      obtain ⟨hbyte, hmark⟩ := h.written hb
      have hlasts : Lasts content k₁ k' pid (start + i) := h'.others (by omega)
      cases hlasts with
      | kept hbyte' hmark' =>
        rw [hsize] at hmark'
        exact ⟨hbyte'.trans hbyte, hmark' hmark⟩
      | dropped hclean =>
        rw [hsize] at hclean
        cases hclean.symm.trans hmark
    · rw [List.getElem?_append_right (Nat.not_lt.1 hi)] at hb
      obtain ⟨hbyte, hmark⟩ := h'.written hb
      have hplace : start + bytes.length + (i - bytes.length) = start + i := by omega
      rw [hplace] at hbyte hmark
      exact ⟨hbyte, hsize ▸ hmark⟩
  others := by
    intro q a hout
    rw [List.length_append] at hout
    have hfirst : Lasts content k k₁ q a := h.others fun hin => hout ⟨hin.1, hin.2.1, by omega⟩
    have hmore : Lasts content k₁ k' q a :=
      h'.others fun hin => hout ⟨hin.1, by omega, by omega⟩
    exact hfirst.trans hmore hkeeps

/-- Where the pages without marks are as they came, the other bytes are the same. -/
theorem Overwrites.byteAt?_eq (h : Overwrites content pid start bytes k k')
    (horiginal : k.Original content) :
    k'.byteAt? content = (k.byteAt? content).put pid start bytes := by
  funext q a
  by_cases hin : q = pid ∧ start ≤ a ∧ a < start + bytes.length
  · obtain ⟨rfl, hlow, hhigh⟩ := hin
    have hb : bytes[a - start]? = some bytes[a - start] := List.getElem?_eq_getElem (by omega)
    have hput : (k.byteAt? content).put q start bytes q (start + (a - start)) = some _ :=
      Stored.put_inside hb
    have hbyte := (h.written hb).1
    rw [Nat.add_sub_cancel' hlow] at hbyte hput
    exact hbyte.trans hput.symm
  · rw [Stored.put_outside hin]
    cases h.others hin with
    | kept hbyte => exact hbyte
    | dropped hclean hbyte =>
      obtain ⟨e, he, hunmarked⟩ := Option.map_eq_some_iff.1 hclean
      rw [hbyte, firstByte?, byteAt?, horiginal.first he hunmarked]

/-! ## What is copied -/

theorem Accessed.changed? (hacc : Accessed pins pid v f write k k') :
    k'.changed? q w = (k.changed? q w).map (· || (write && decide (q = pid ∧ w = v))) := by
  unfold Kernel.changed?
  cases he' : k'.residency.page? q w with
  | none => rw [hacc.stays.keeps.symm.page?_eq_none he']; rfl
  | some e' =>
    obtain ⟨e, he, -, -, hchanged⟩ := hacc.traced he'
    rw [he, Option.map_some, Option.map_some, Option.map_some, hchanged]

section Copies

variable [BackingStore σ]

/-- A chunk that has been written. -/
theorem CopiesChunk.overwrites (hchunk : CopiesChunk pid true chunk bytes k k')
    (hstore : IsArray (fun _ => True) content) (h : k.Sound pins none) (hblank : k.Blank)
    (hfits : chunk.offset + chunk.amount ≤ k.memory.pageSize) :
    Overwrites content pid (chunk.vpn * k.memory.pageSize + chunk.offset) bytes k k' := by
  obtain ⟨-, e, f, k₁, hres, he, hs, hwrite, rfl⟩ := hchunk.copied (.of_holds hstore.holds) h hfits
  obtain ⟨⟨h₁, hkeeps⟩, -⟩ := hres.ready h
  have hacc : Accessed pins pid chunk.vpn f true k₁ _ := .marked h₁ he hs hwrite
  rw [← hchunk.1, ← hkeeps.pageSize] at hfits
  have hput : byteAt? content _ = _ := hacc.byteAt?_patch hfits
  have hmark : ∀ q w, changed? _ q w = _ := fun q w => hacc.changed? (q := q) (w := w)
  rw [← hkeeps.pageSize]
  constructor
  · intro i b hb
    have hi := (List.getElem?_eq_some_iff.1 hb).1
    have hpage : pageOf k₁.memory.pageSize
        (chunk.vpn * k₁.memory.pageSize + chunk.offset + i) = chunk.vpn := by
      rw [Nat.add_assoc]
      exact pageOf_mul_add (by omega)
    refine ⟨?_, ?_⟩
    · exact (congrFun (congrFun hput pid) _).trans (Stored.put_inside hb)
    · rw [← hkeeps.pageSize, hpage]
      refine (hmark pid chunk.vpn).trans ?_
      rw [changed?, he]
      simp
  · intro q a hout
    have hfirst : Lasts content k k₁ q a := (hres.steps h).lasts hkeeps hblank
    refine hfirst.trans (.kept ?_ fun hm => ?_) hkeeps
    · exact (congrFun (congrFun hput q) a).trans (Stored.put_outside hout)
    · refine (hmark q _).trans ?_
      rw [hm]
      simp

theorem CopiesChunk.blank (hchunk : CopiesChunk pid write chunk bytes k k')
    (h : k.Sound pins none) (hblank : k.Blank)
    (hfits : chunk.offset + chunk.amount ≤ k.memory.pageSize) : k'.Blank := by
  obtain ⟨-, e, f, k₁, hres, he, hs, -, rfl⟩ := hchunk.copied .any h hfits
  exact ((hres.course h).blank hblank).referenced he hs

/-- Chunks that have been copied one after another, and written. -/
theorem Visits.overwrites {len : Nat} (hvisits : Visits pid write list pieces k k')
    (hwrite : write = true) (hstore : IsArray (fun _ => True) content) (h : k.Sound pins none)
    (hblank : k.Blank) (hlist : Consecutive k.memory.pageSize start len list) :
    Overwrites content pid start pieces.flatten k k' ∧ k'.Blank := by
  induction hvisits generalizing start len with
  | done => exact ⟨.nil fun _ _ => .refl, hblank⟩
  | copied hchunk _ ih =>
    subst hwrite
    obtain ⟨rfl, hfits, -, -, -, hrest⟩ := hlist
    have hstays := hchunk.stays h hfits
    have hfirst := hchunk.overwrites hstore h hblank hfits
    rw [← hchunk.1, ← hstays.keeps.pageSize] at hrest
    obtain ⟨hmore, hlast⟩ := ih hstays.sound (hchunk.blank h hblank hfits) hrest
    rw [hstays.keeps.pageSize] at hmore
    exact ⟨hfirst.append hmore hstays.keeps, hlast⟩

/-- A copy that stops on its way has replaced what it has copied. -/
theorem CopiesRange.overwrites {stop : Except PagingError Unit} {len : Nat}
    (hcopies : CopiesRange pid true vaddr n list k copied stop k')
    (hstore : IsArray (fun _ => True) content) (h : k.Sound pins none) (hblank : k.Blank)
    (hlist : Consecutive k.memory.pageSize vaddr len list) :
    Overwrites content pid vaddr copied k k' := by
  -- bringing a page in writes no byte
  have hstopped : ∀ {w pieces k₁ r}, ComesTo pid true vaddr n list k w pieces k₁ →
      (resolve pid w).run.run k₁ = .ok (r, k') →
        Overwrites content pid vaddr pieces.flatten k k' := by
    intro w pieces k₁ r hcomes hrun
    obtain ⟨before, chunk, after, rfl, -, hvisits⟩ := hcomes.visits
    have hbefore := hlist.front
    have hstays := hvisits.stays h fun chunk hmem => (hbefore.within chunk hmem).2
    obtain ⟨hover, hblank₁⟩ := hvisits.overwrites rfl hstore h hblank hbefore
    have hres : Resolved (arrayConduct content) pins pid w k₁ r k' :=
      hstays.sound.resolved (.of_holds hstore.holds) hrun
    have hnone : Overwrites content pid (vaddr + pieces.flatten.length) [] k₁ k' :=
      .nil fun _ _ => (hres.steps hstays.sound).lasts (hres.keeps hstays.sound) hblank₁
    have hall := hover.append hnone hstays.keeps
    rwa [List.append_nil] at hall
  cases hcopies with
  | whole hvisits => exact (hvisits.overwrites rfl hstore h hblank hlist).1
  | refused hcomes hres => exact hstopped hcomes hres
  | failed hcomes hres => exact hstopped hcomes hres

/-- A copy of `len` bytes at `vaddr`, from or to a live process, cuts what is addressable of its
    range into one chunk for each page, and copies them in this order.  It ends, unless a pin or
    the storage stops it, and if it does not fail it has copied just these bytes.  A page that
    cannot be brought in, or be written, ends it between two pages: the buffer of a read changes up
    to where that page starts, and a write replaces the bytes up to there, and no others. -/
theorem Reachable.copies_cover {p : Process} (h : k.Reachable) (hsize : k.pageSize ≤ 2 ^ 31)
    (hp : k.residency.process? pid = some p) (hlive : p.exited = false) (vaddr : Nat) :
    (∀ len, Cuts k.pageSize vaddr (covered k.pageSize p.numPages vaddr len)
      (chunks k.pageSize p.numPages vaddr len)) ∧
    (∀ {c : Conduct σ} {V : Violation → Prop} buffer, Tolerated c V k →
      (∀ f n, k.pinCount? f = some n → n + 1 < limit32 ∨ V .overflow) →
      Ends V (readBytes pid vaddr buffer) k fun r k' => ∃ copied stop,
        CopiesRange pid false vaddr (covered k.pageSize p.numPages vaddr buffer.length)
          (chunks k.pageSize p.numPages vaddr buffer.length) k copied stop k' ∧
        r.1 = (stop.map fun _ => covered k.pageSize p.numPages vaddr buffer.length) ∧
        r.2 = copied ++ buffer.drop copied.length) ∧
    ∀ {c : Conduct σ} {V : Violation → Prop} data, Tolerated c V k →
      (∀ f n, k.pinCount? f = some n → n + 1 < limit32 ∨ V .overflow) →
      Ends V (writeBytes pid vaddr data).run k fun r k' => ∃ copied stop,
        CopiesRange pid true vaddr (covered k.pageSize p.numPages vaddr data.length)
          (chunks k.pageSize p.numPages vaddr data.length) k copied stop k' ∧
        r = (stop.map fun _ => covered k.pageSize p.numPages vaddr data.length) ∧
        copied <+: data ∧
        ∀ {content : σ → Nat → UInt8}, IsArray (fun _ => True) content →
          Overwrites content pid vaddr copied k k' ∧ (Bytes.wordSize ≤ k.pageSize →
            k'.byteAt? content = (k.byteAt? content).put pid vaddr copied) := by
  obtain ⟨pins, hsound, -⟩ := h.sound
  have hpos : 0 < k.pageSize := hsound.memory.pageSize_pos
  have hlimit : k.pageSize ∣ addressLimit := h.dvd_addressLimit hsize
  refine ⟨fun len => cuts_chunks hpos hlimit, fun {c V} buffer hc hroom => ?_,
    fun {c V} data hc hroom => ?_⟩
  · have hreturns : Ends V (readBytes pid vaddr buffer) k fun _ _ => True :=
      (readBytes_stays hc hsound.counted fun _ => room_of_pinCount? hroom).imp fun _ _ _ => trivial
    exact hreturns.of_returns (ends_readBytes_copiesRange hsound hlimit hp hlive)
  · have hreturns : Ends V (writeBytes pid vaddr data).run k fun _ _ => True :=
      (writeBytes_stays hc hsound.counted fun _ => room_of_pinCount? hroom).imp fun _ _ _ => trivial
    refine hreturns.of_returns ((ends_writeBytes_copiesRange hsound hlimit hp hlive).imp ?_)
    rintro r k' ⟨copied, stop, hcopies, hresult, hprefix⟩
    refine ⟨copied, stop, hcopies, hresult, hprefix, fun {content} hstore => ?_⟩
    have hover : Overwrites content pid vaddr copied k k' :=
      hcopies.overwrites hstore hsound h.blank (consecutive_chunks hpos)
    exact ⟨hover, fun hwords => hover.byteAt?_eq (h.original hstore (h.words hwords))⟩

end Copies

/-- Two pages that may be written, and one that may not. -/
def dataBeforeText : List Section := [
  { name := "data", firstVpn := 0, readOnly := false, pageSize := 4,
    content := .data (.ofList [0, 0, 0, 0, 0, 0, 0, 0]) },
  { name := "text", firstVpn := 2, readOnly := true, pageSize := 4, content := .data (.ofList [2]) }]

/-- A write over three pages, of which the last is read-only, replaces the bytes of the others. -/
theorem Reachable.copies_cover_of_readOnly : ∃ k k' : Kernel MemoryStore,
    (writeBytes 1 3 [1, 2, 3, 4, 5, 6, 7, 8, 9]).run.run k = .ok (.error (.readOnly 2), k') ∧
      Overwrites MemoryStore.content 1 3 [1, 2, 3, 4, 5] k k' ∧
      k'.byteAt? MemoryStore.content = (k.byteAt? MemoryStore.content).put 1 3 [1, 2, 3, 4, 5] := by
  have hrun : (boot 4 { physPages := 1, tlbSize := 1, stackPages := 1 } ({} : MemoryStore)
      dataBeforeText [] >>= fun k₀ => (operate (.request (.spawn [0, 1]))).run.run k₀ >>= fun r₁ =>
        (writeBytes 1 3 [1, 2, 3, 4, 5, 6, 7, 8, 9]).run.run r₁.2 >>= fun r₂ =>
          .ok (r₁.2.pageSize, (r₁.2.residency.process? 1).map (·.exited), failure? r₂.1)).toOption =
      some (4, some false, some (.readOnly 2)) := by
    decide +kernel
  obtain ⟨k₀, hboot, hrun⟩ := Checked.exists_of_toOption_bind hrun
  obtain ⟨⟨r₁, k⟩, hspawn, hrun⟩ := Checked.exists_of_toOption_bind hrun
  obtain ⟨⟨r₂, k'⟩, hwrite, hrun⟩ := Checked.exists_of_toOption_bind hrun
  have hall := Option.some.inj hrun
  simp only [Prod.mk.injEq] at hall
  obtain ⟨hpages, hexited, hstopped⟩ := hall
  obtain rfl := failure?_eq_some.1 hstopped
  obtain ⟨p, hp, hlive⟩ := Option.map_eq_some_iff.1 hexited
  have hk : k.Reachable := .step (.fresh hboot) hspawn
  obtain ⟨-, -, hwrites⟩ := Reachable.copies_cover hk (by rw [hpages]; decide) hp hlive 3
  obtain ⟨copied, stop, hcopies, hresult, hprefix, hbytes⟩ :=
    (hwrites _ .any fun _ _ _ => .inr trivial).of_run hwrite
  obtain ⟨hover, hput⟩ := hbytes MemoryStore.isArray
  have hcopied : copied = [1, 2, 3, 4, 5] := by
    cases hcopies with
    | whole => cases hresult
    | refused hcomes =>
      cases hresult
      rw [List.prefix_iff_eq_take.1 hprefix, hcomes.length, hpages]
      rfl
    | failed _ _ hother =>
      cases hresult
      exact absurd rfl (hother 2)
  subst hcopied
  exact ⟨k, k', hwrite, hover, hput (by rw [hpages]; decide)⟩

end DemandPaging.Kernel
