/-
  A copy covers what is addressable of its range, page by page.

  The chunks of a copy cut that part of its range where pages end (`Cuts`).  They are copied one
  after another (`Visits`), each in one piece, until none is left or one of them has a page that
  may not be written or cannot be brought in (`CopiesRange`).
-/
import DemandPaging.Proofs.Direct
import DemandPaging.Proofs.Operated
import DemandPaging.Proofs.PinBalance
import DemandPaging.Proofs.Transfers

namespace DemandPaging

namespace Kernel

/-! ## Where the chunks are -/

section Chunks

variable {pageSize numPages vaddr start len n done fuel a : Nat} {v : Vpn} {chunk : Chunk}
  {list before after : List Chunk}

/-- How many of `len` bytes at `vaddr` lie in an address space of `numPages` pages, and have
    addresses. -/
def covered (pageSize numPages vaddr len : Nat) : Nat :=
  min len (min (numPages * pageSize) addressLimit - vaddr)

/-- The addresses of the bytes of a chunk. -/
def Chunk.addresses (pageSize : Nat) (chunk : Chunk) : List Nat :=
  List.range' (chunk.vpn * pageSize + chunk.offset) chunk.amount

/-- Page `v` has some of the `n` bytes from `start` on. -/
def Meets (pageSize start n : Nat) (v : Vpn) : Prop :=
  ∃ a, start ≤ a ∧ a < start + n ∧ pageOf pageSize a = v

/-- The chunks cut the `n` bytes from `start` on where pages end. -/
structure Cuts (pageSize start n : Nat) (list : List Chunk) : Prop where
  /-- One after another they are the range, each byte of it once. -/
  addresses : list.flatMap (·.addresses pageSize) = List.range' start n
  /-- Each has bytes, of one page only. -/
  within : ∀ chunk ∈ list, 0 < chunk.amount ∧ chunk.offset + chunk.amount ≤ pageSize
  /-- The pages ascend, so that none comes twice. -/
  ascending : list.Pairwise (·.vpn < ·.vpn)
  /-- They are those that have bytes of the range. -/
  pages : ∀ v, (∃ chunk ∈ list, chunk.vpn = v) ↔ Meets pageSize start n v

/-- All bytes of a chunk are in its page. -/
theorem Chunk.pageOf_eq (hfits : chunk.offset + chunk.amount ≤ pageSize)
    (ha : a ∈ chunk.addresses pageSize) : pageOf pageSize a = chunk.vpn := by
  obtain ⟨hlow, hhigh⟩ := List.mem_range'_1.1 ha
  have hplace : a = chunk.vpn * pageSize + (a - chunk.vpn * pageSize) := by omega
  rw [hplace]
  exact pageOf_mul_add (by omega)

theorem Chunk.place_mem (hsome : 0 < chunk.amount) :
    chunk.vpn * pageSize + chunk.offset ∈ chunk.addresses pageSize :=
  List.mem_range'_1.2 ⟨Nat.le_refl _, Nat.lt_add_of_pos_right hsome⟩

namespace Consecutive

theorem addresses (h : Consecutive pageSize start len list) :
    list.flatMap (·.addresses pageSize) = List.range' start (list.map (·.amount)).sum := by
  induction list generalizing start len with
  | nil => rfl
  | cons chunk rest ih =>
    obtain ⟨hplace, -, -, -, -, hrest⟩ := h
    rw [List.flatMap_cons, ih hrest, Chunk.addresses, hplace, List.map_cons, List.sum_cons]
    exact List.range'_append_1

theorem within (h : Consecutive pageSize start len list) :
    ∀ chunk ∈ list, 0 < chunk.amount ∧ chunk.offset + chunk.amount ≤ pageSize := by
  induction list generalizing start len with
  | nil => simp
  | cons chunk rest ih =>
    obtain ⟨-, hfits, hsome, -, -, hrest⟩ := h
    exact List.forall_mem_cons.2 ⟨⟨hsome, hfits⟩, ih hrest⟩

/-- The bytes of a chunk are not before the range. -/
theorem start_le (h : Consecutive pageSize start len list) (hmem : chunk ∈ list) :
    start ≤ chunk.vpn * pageSize + chunk.offset := by
  have hin : chunk.vpn * pageSize + chunk.offset ∈ list.flatMap (·.addresses pageSize) :=
    List.mem_flatMap.2 ⟨chunk, hmem, Chunk.place_mem (h.within chunk hmem).1⟩
  rw [h.addresses] at hin
  exact (List.mem_range'_1.1 hin).1

/-- Only the last chunk may end before its page does, so that the next one is in another page. -/
theorem ascending (h : Consecutive pageSize start len list) :
    list.Pairwise (·.vpn < ·.vpn) := by
  induction list generalizing start len with
  | nil => exact .nil
  | cons chunk rest ih =>
    obtain ⟨rfl, -, -, -, hwhole, hrest⟩ := h
    refine List.pairwise_cons.2 ⟨fun later hmem => ?_, ih hrest⟩
    have hend := hwhole (List.ne_nil_of_mem hmem)
    have hlater := hrest.start_le hmem
    obtain ⟨hsome, hfits⟩ := hrest.within later hmem
    refine Nat.lt_of_mul_lt_mul_right (a := pageSize) ?_
    omega

/-- The first of these chunks. -/
theorem front (h : Consecutive pageSize start len (before ++ after)) :
    Consecutive pageSize start len before := by
  induction before generalizing start len with
  | nil => trivial
  | cons chunk rest ih =>
    obtain ⟨hplace, hfits, hsome, hamount, hwhole, hrest⟩ := h
    refine ⟨hplace, hfits, hsome, hamount, fun hmore => hwhole ?_, ih hrest⟩
    exact List.append_ne_nil_of_left_ne_nil hmore _

/-- The chunks before one end where it starts, or where its page does. -/
theorem sum_before (h : Consecutive pageSize start len (before ++ chunk :: after)) :
    (before.map (·.amount)).sum = chunk.vpn * pageSize - start := by
  induction before generalizing start len with
  | nil =>
    obtain ⟨rfl, -⟩ := h
    rw [List.map_nil, List.sum_nil]
    omega
  | cons first rest ih =>
    have hnext : first.vpn < chunk.vpn :=
      (List.pairwise_cons.1 h.ascending).1 chunk (List.mem_append_right _ List.mem_cons_self)
    obtain ⟨rfl, -, -, -, hwhole, hrest⟩ := h
    have hlast := hwhole (List.append_ne_nil_of_right_ne_nil _ (List.cons_ne_nil _ _))
    have hunit := @Bytes.unit_le _ pageSize _ hnext
    rw [List.map_cons, List.sum_cons, ih hrest]
    omega

end Consecutive

/-- The chunks have all the bytes that are addressable.  The induction is on the bound of their
    number: there are no more of them than bytes. -/
theorem sum_chunks (hpos : 0 < pageSize) (hlimit : pageSize ∣ addressLimit) :
    ((chunks pageSize numPages vaddr len).map (·.amount)).sum =
      covered pageSize numPages vaddr len := by
  obtain ⟨pages, hpages⟩ := hlimit
  have hfrom : ∀ fuel done, len - done ≤ fuel →
      ((chunksFrom pageSize numPages vaddr len fuel done).map (·.amount)).sum =
        covered pageSize numPages (vaddr + done) (len - done) := by
    intro fuel
    induction fuel with
    | zero =>
      intro done hfuel
      rw [covered, Nat.le_zero.1 hfuel, Nat.zero_min]
      rfl
    | succ fuel ih =>
      intro done hfuel
      have hplace : vaddr + done =
          pageOf pageSize (vaddr + done) * pageSize + offsetIn pageSize (vaddr + done) :=
        pageOf_mul_add_offsetIn.symm
      have hlt : offsetIn pageSize (vaddr + done) < pageSize := Nat.mod_lt _ hpos
      unfold chunksFrom
      dsimp only
      split
      · next hstop =>
        rw [List.map_nil, List.sum_nil, covered]
        rcases hstop with hall | hlimit | hout
        · omega
        · omega
        · have hend := Nat.mul_le_mul_right pageSize hout
          omega
      · next hgo =>
        simp only [not_or, Nat.not_le] at hgo
        obtain ⟨hmore, hbelow, hin⟩ := hgo
        have hspace := @Bytes.unit_le _ pageSize _ hin
        have hpage : pageOf pageSize (vaddr + done) < pages := by
          refine Nat.div_lt_of_lt_mul ?_
          rwa [← hpages]
        have hbound := @Bytes.unit_le _ pageSize _ hpage
        rw [Nat.mul_comm pages, ← hpages] at hbound
        rw [List.map_cons, List.sum_cons, ih _ (by omega)]
        unfold covered
        dsimp only
        omega
  exact hfrom len 0 (Nat.le_refl _)

/-- The chunks of a copy cut what is addressable of its range. -/
theorem cuts_chunks (hpos : 0 < pageSize) (hlimit : pageSize ∣ addressLimit) :
    Cuts pageSize vaddr (covered pageSize numPages vaddr len)
      (chunks pageSize numPages vaddr len) := by
  have hlist : Consecutive pageSize vaddr len (chunks pageSize numPages vaddr len) :=
    consecutive_chunks hpos
  have haddresses := hlist.addresses
  rw [sum_chunks hpos hlimit] at haddresses
  refine ⟨haddresses, hlist.within, hlist.ascending, fun v => ⟨?_, ?_⟩⟩
  · rintro ⟨chunk, hmem, rfl⟩
    obtain ⟨hsome, hfits⟩ := hlist.within chunk hmem
    have hfirst : chunk.vpn * pageSize + chunk.offset ∈ chunk.addresses pageSize :=
      Chunk.place_mem hsome
    have hin := List.mem_flatMap.2 ⟨chunk, hmem, hfirst⟩
    rw [haddresses] at hin
    obtain ⟨hlow, hhigh⟩ := List.mem_range'_1.1 hin
    exact ⟨_, hlow, hhigh, Chunk.pageOf_eq hfits hfirst⟩
  · rintro ⟨a, hlow, hhigh, rfl⟩
    have hin := List.mem_range'_1.2 ⟨hlow, hhigh⟩
    rw [← haddresses] at hin
    obtain ⟨chunk, hmem, ha⟩ := List.mem_flatMap.1 hin
    exact ⟨chunk, hmem, (Chunk.pageOf_eq (hlist.within chunk hmem).2 ha).symm⟩

end Chunks

variable {σ : Type} {c : Conduct σ} {V : Violation → Prop} {pins : Frame → Nat}
  {k k' k₁ : Kernel σ} {pid : Pid} {v : Vpn} {vaddr start n : Nat} {write : Bool} {chunk : Chunk}
  {list before after : List Chunk} {bytes data : Bytes} {pieces : List Bytes}
  {error : PagingError}

/-! ## The flags of pages -/

/-- Whether a page is read-only, if there is such a page. -/
def readOnly? (k : Kernel σ) (pid : Pid) (v : Vpn) : Option Bool :=
  (k.residency.page? pid v).map (·.readOnly)

theorem Keeps.readOnly?_eq (hkeeps : k.Keeps k') : k'.readOnly? pid v = k.readOnly? pid v := by
  unfold readOnly?
  cases he : k.residency.page? pid v with
  | some e =>
    obtain ⟨e', he'⟩ := hkeeps.exists_page he
    rw [he', Option.map_some, Option.map_some, hkeeps.readOnly he he']
  | none =>
    rw [hkeeps.page?_eq_none he]

/-! ## How a copy proceeds -/

/-- A page that is in a frame is found there. -/
theorem Resolved.eq_of_present {r : Except PagingError Mapping} {e : PageEntry} {f : Frame}
    {p : Process} (hres : Resolved c pins pid v k r k') (h : Present pid v e f n p k.residency) :
    r = .ok e.mapping ∧ k' = k := by
  have hpage : k.residency.page? pid v = some e :=
    (Residency.page?_of_process h.process h.registered).trans h.entry
  cases hres with
  | exited hdead => exact absurd (hdead p h.process) (by simp [h.live])
  | outside hp _ hnone =>
    cases h.process.symm.trans hp
    cases hnone.symm.trans h.entry
  | there he =>
    cases hpage.symm.trans he
    exact ⟨rfl, rfl⟩
  | faulted _ _ he hs =>
    cases hpage.symm.trans he
    exact absurd h.resident (hs f)

theorem Resolved.keeps {r : Except PagingError Mapping} (hres : Resolved c pins pid v k r k')
    (h : k.Sound pins none) : k.Keeps k' := by
  cases r with
  | ok _ => exact (hres.ready h).keeps
  | error _ => exact (hres.stays h).keeps

/-- Whether a page may be written plays no part in bringing it in. -/
theorem Resolved.ne_readOnly {w : Vpn} (hres : Resolved c pins pid v k (.error error) k') :
    error ≠ .readOnly w := by
  rintro rfl
  cases hres with
  | faulted _ _ _ _ hin =>
    cases hin with
    | starved hall =>
      cases hall with
      | refused _ hvac => cases hvac
    | failed _ hfetch =>
      generalize hr : (Except.error (.readOnly w) : Except PagingError Bytes) = r at hfetch
      cases hfetch with
      | @swapped _ r => cases r <;> cases hr
      | @image _ _ _ _ r => cases r <;> cases hr
      | zero => cases hr

section Copies

variable [BackingStore σ]

theorem Sound.resolved {r : Except PagingError Mapping} (h : k.Sound pins none)
    (hc : Tolerated c (fun _ => True) k) (hrun : (resolve pid v).run.run k = .ok (r, k')) :
    Resolved c pins pid v k r k' :=
  (ends_resolve hc h fun _ _ hres => hres).of_run hrun

/-- The bytes of a chunk have been copied, in one piece: they have been read, or written. -/
def CopiesChunk (pid : Pid) (write : Bool) (chunk : Chunk) (bytes : Bytes) (k k' : Kernel σ) :
    Prop :=
  bytes.length = chunk.amount ∧
    if write then
      (copyChunk pid true chunk fun address => writing (·.write address bytes)).run.run k =
        .ok (.ok (), k')
    else
      (copyChunk pid false chunk fun address =>
        reading (·.read address chunk.amount)).run.run k = .ok (.ok bytes, k')

/-- The chunks have been copied one after another. -/
inductive Visits (pid : Pid) (write : Bool) :
    List Chunk → (pieces : List Bytes) → Kernel σ → Kernel σ → Prop where
  | done {k : Kernel σ} : Visits pid write [] [] k k
  | copied {chunk : Chunk} {rest : List Chunk} {bytes : Bytes} {pieces : List Bytes}
    {k k₁ k' : Kernel σ} (hchunk : CopiesChunk pid write chunk bytes k k₁)
    (hrest : Visits pid write rest pieces k₁ k') :
    Visits pid write (chunk :: rest) (bytes :: pieces) k k'

/-- Page `v` cannot be copied to or from: it does not come into a frame, or it has and may not be
    written. -/
inductive PageFails (pid : Pid) (write : Bool) (v : Vpn) (k : Kernel σ) :
    PagingError → Kernel σ → Prop where
  | fault {error : PagingError} {k' : Kernel σ}
    (hres : (resolve pid v).run.run k = .ok (.error error, k')) : PageFails pid write v k error k'
  | readOnly {m : Mapping} {k' : Kernel σ} (hres : (resolve pid v).run.run k = .ok (.ok m, k'))
    (hwrite : write = true) (hro : k.readOnly? pid v = some true) :
    PageFails pid write v k (.readOnly v) k'

/-- How a copy of these chunks ends: all have been copied, or those before one whose page fails. -/
inductive Proceeds (pid : Pid) (write : Bool) (list : List Chunk) (k : Kernel σ) :
    (pieces : List Bytes) → Except PagingError Unit → Kernel σ → Prop where
  | whole {pieces : List Bytes} {k' : Kernel σ} (hvisits : Visits pid write list pieces k k') :
    Proceeds pid write list k pieces (.ok ()) k'
  | stopped {before after : List Chunk} {chunk : Chunk} {pieces : List Bytes} {error : PagingError}
    {k₁ k' : Kernel σ} (hlist : list = before ++ chunk :: after)
    (hvisits : Visits pid write before pieces k k₁)
    (hfails : PageFails pid write chunk.vpn k₁ error k') :
    Proceeds pid write list k pieces (.error error) k'

theorem Proceeds.cons {stop : Except PagingError Unit}
    (hchunk : CopiesChunk pid write chunk bytes k k₁)
    (hrest : Proceeds pid write list k₁ pieces stop k') :
    Proceeds pid write (chunk :: list) k (bytes :: pieces) stop k' := by
  cases hrest with
  | whole hvisits => exact .whole (.copied hchunk hvisits)
  | stopped hlist hvisits hfails =>
    rw [hlist]
    exact .stopped (List.cons_append ..).symm (.copied hchunk hvisits) hfails

/-- What has been copied is as long as the chunks. -/
theorem Visits.length_flatten (h : Visits pid write list pieces k k') :
    pieces.flatten.length = (list.map (·.amount)).sum := by
  induction h with
  | done => rfl
  | copied hchunk _ ih =>
    rw [List.flatten_cons, List.length_append, hchunk.1, ih, List.map_cons, List.sum_cons]

/-! ### Chunks -/

/-- What copying a chunk does: the page is there, and marked; its bytes change if it is written. -/
theorem CopiesChunk.copied (hchunk : CopiesChunk pid write chunk bytes k k')
    (hc : Tolerated c (fun _ => True) k) (h : k.Sound pins none)
    (hfits : chunk.offset + chunk.amount ≤ k.memory.pageSize) :
    Stays pins k k' ∧ ∃ e f k₁, Resolved c pins pid chunk.vpn k (.ok e.mapping) k₁ ∧
      k₁.residency.page? pid chunk.vpn = some e ∧ e.state = .resident f ∧
      (write = true → e.readOnly = false) ∧
      k' = { k₁.referenced pid chunk.vpn (e.touch write) f (pins f) with
        memory := if write then k₁.memory.patch (f * k₁.memory.pageSize + chunk.offset) bytes
          else k₁.memory } := by
  obtain ⟨hlen, hrun⟩ := hchunk
  cases write with
  | false =>
    have hcopied : Copied c pins pid chunk.vpn false (ReadFrom chunk) k (.ok bytes) k' :=
      (ends_copyChunk hc h (fun _ _ => .inr trivial) (moves_read hfits) fun _ _ hc => hc).of_run hrun
    refine ⟨hcopied.stays_of_read h, ?_⟩
    cases hcopied with
    | moved hres he hs hwrite hmoved =>
      obtain ⟨rfl, -⟩ := hmoved
      exact ⟨_, _, _, hres, he, hs, hwrite, rfl⟩
  | true =>
    have hcopied : Copied c pins pid chunk.vpn true (WrittenTo chunk bytes) k (.ok ()) k' :=
      (ends_copyChunk hc h (fun _ _ => .inr trivial) (moves_write hfits (Nat.le_of_eq hlen))
        fun _ _ hc => hc).of_run hrun
    refine ⟨hcopied.stays_of_write h (hlen.symm ▸ hfits), ?_⟩
    cases hcopied with
    | moved hres he hs hwrite hmoved =>
      obtain ⟨rfl, -⟩ := hmoved
      exact ⟨_, _, _, hres, he, hs, hwrite, rfl⟩

theorem CopiesChunk.stays (hchunk : CopiesChunk pid write chunk bytes k k')
    (h : k.Sound pins none) (hfits : chunk.offset + chunk.amount ≤ k.memory.pageSize) :
    Stays pins k k' :=
  (hchunk.copied .any h hfits).1

/-- A page that has been written is not read-only. -/
theorem CopiesChunk.writable (hchunk : CopiesChunk pid true chunk bytes k k')
    (h : k.Sound pins none) (hfits : chunk.offset + chunk.amount ≤ k.memory.pageSize) :
    k.readOnly? pid chunk.vpn = some false := by
  obtain ⟨-, e, f, k₁, hres, he, -, hwrite, -⟩ := hchunk.copied .any h hfits
  rw [← (hres.ready h).keeps.readOnly?_eq, readOnly?, he, Option.map_some, hwrite rfl]

theorem Visits.stays (h : Visits pid write list pieces k k') (hk : k.Sound pins none)
    (hfits : ∀ chunk ∈ list, chunk.offset + chunk.amount ≤ k.memory.pageSize) :
    Stays pins k k' := by
  induction h with
  | done => exact .refl hk
  | copied hchunk _ ih =>
    have hstays := hchunk.stays hk (hfits _ List.mem_cons_self)
    exact hstays.trans (ih hstays.sound (hstays.keeps.fits_rest hfits))

theorem Visits.writable (h : Visits pid write list pieces k k') (hk : k.Sound pins none)
    (hfits : ∀ chunk ∈ list, chunk.offset + chunk.amount ≤ k.memory.pageSize)
    (hwrite : write = true) : ∀ chunk ∈ list, k.readOnly? pid chunk.vpn = some false := by
  induction h with
  | done => simp
  | copied hchunk _ ih =>
    subst hwrite
    have hfirst := hfits _ List.mem_cons_self
    have hstays := hchunk.stays hk hfirst
    refine List.forall_mem_cons.2 ⟨hchunk.writable hk hfirst, fun chunk hmem => ?_⟩
    rw [← hstays.keeps.readOnly?_eq]
    exact ih hstays.sound (hstays.keeps.fits_rest hfits) chunk hmem

/-! ### Pages that fail -/

/-- A chunk fails for its page, not for its bytes. -/
theorem Sound.pageFails {α : Type} {copy : Nat → KernelM σ α}
    {R : Frame → PhysicalMemory → Except PagingError α → PhysicalMemory → Prop}
    (h : k.Sound pins none) (hmoves : Moves (fun _ => True) k.memory.pageSize chunk copy R)
    (hR : ∀ {f mem r mem'}, R f mem r mem' → ∃ a, r = .ok a)
    (hrun : (copyChunk pid write chunk copy).run.run k = .ok (.error error, k')) :
    PageFails pid write chunk.vpn k error k' := by
  rcases hres : (resolve pid chunk.vpn).run.run k with v | ⟨error' | m, k₁⟩
  · have hpin : (pinPage pid chunk.vpn write).run.run k = _ := run_bind_of_stop hres
    have hstop : (copyChunk pid write chunk copy).run.run k = _ := run_bind_of_stop hpin
    cases hstop.symm.trans hrun
  · have hpin : (pinPage pid chunk.vpn write).run.run k = _ := run_bind_of_error hres
    have hstop : (copyChunk pid write chunk copy).run.run k = _ := run_bind_of_error hpin
    cases hstop.symm.trans hrun
    exact .fault hres
  · obtain ⟨⟨h₁, hkeeps⟩, e, f, he, hs, rfl⟩ := (h.resolved .any hres).ready h
    obtain ⟨p, hpresent⟩ := h₁.present he hs
    -- with the page in its frame the chunk would go the same way
    have hfirst : (pinPage pid chunk.vpn write).run.run k = _ := run_bind_of_ok hres
    have hagain : (pinPage pid chunk.vpn write).run.run k₁ = _ :=
      run_bind_of_ok (run_resolve hpresent)
    have hsame : (copyChunk pid write chunk copy).run.run k = _ :=
      run_bind_congr (hfirst.trans hagain.symm)
    rw [← hkeeps.pageSize] at hmoves
    have hcopied := (ends_copyChunk .any h₁ (fun _ _ => .inr trivial) hmoves
      fun _ _ hcopied => hcopied).of_run (hsame.symm.trans hrun)
    cases hcopied with
    | failed hres₁ => cases (hres₁.eq_of_present hpresent).1
    | refused hres₁ hwrite hro =>
      obtain ⟨hm, rfl⟩ := hres₁.eq_of_present hpresent
      cases hm
      refine .readOnly hres hwrite ?_
      rw [← hkeeps.readOnly?_eq, readOnly?, he, Option.map_some]
      exact congrArg some hro
    | moved _ _ _ _ hmoved =>
      obtain ⟨a, ha⟩ := hR hmoved
      cases ha

/-! ### Runs of chunks -/

/-- The induction is on the chunks: what has been read so far comes first. -/
theorem ends_readChunks_proceeds {acc : List Bytes} (h : k.Sound pins none)
    (hlist : Consecutive k.memory.pageSize start n list) :
    Ends (fun _ => True) (readChunks pid list acc) k fun r k' => ∃ pieces,
      Proceeds pid false list k pieces r.1 k' ∧ r.2 = acc.reverse.flatten ++ pieces.flatten := by
  induction list generalizing k start n acc with
  | nil => exact ⟨[], .whole .done, (List.append_nil _).symm⟩
  | cons chunk rest ih =>
    obtain ⟨-, hfits, -, -, -, hrest⟩ := hlist
    unfold readChunks
    rw [step_ends_bind]
    refine (ends_copyChunk .any h (fun _ _ => .inr trivial) (moves_read hfits)
      fun _ _ hcopied => hcopied).with_run.imp ?_
    rintro r k₁ ⟨hcopied, hrun⟩
    cases r with
    | error error =>
      have hfails := h.pageFails (moves_read hfits) (fun hmoved => ⟨_, hmoved.2⟩) hrun
      exact ⟨[], .stopped rfl .done hfails, (List.append_nil _).symm⟩
    | ok bytes =>
      have hstays := hcopied.stays_of_read h
      obtain ⟨hlen, -⟩ := (hcopied.read_course h hfits).1 bytes rfl
      rw [← hstays.keeps.pageSize] at hrest
      refine (ih hstays.sound hrest).imp ?_
      rintro r k' ⟨pieces, hproceeds, hbytes⟩
      refine ⟨bytes :: pieces, hproceeds.cons ⟨hlen, hrun⟩, ?_⟩
      rw [hbytes]
      simp

/-- The induction is on the chunks: their bytes are at the front of the data. -/
theorem ends_writeChunks_proceeds {moved : Nat} (h : k.Sound pins none)
    (hlist : Consecutive k.memory.pageSize start data.length list) :
    Ends (fun _ => True) (writeChunks pid list data moved).run k fun r k' => ∃ pieces stop,
      Proceeds pid true list k pieces stop k' ∧ pieces.flatten <+: data ∧
        r = stop.map fun _ => moved + pieces.flatten.length := by
  induction list generalizing k start data moved with
  | nil => exact ⟨[], .ok (), .whole .done, List.nil_prefix, rfl⟩
  | cons chunk rest ih =>
    obtain ⟨-, hfits, -, hamount, -, hrest⟩ := hlist
    have htake : (data.take chunk.amount).length = chunk.amount := List.length_take_of_le hamount
    have hmoves : Moves (σ := σ) (fun _ => True) k.memory.pageSize chunk
        (fun address => writing (·.write address (data.take chunk.amount)))
        (WrittenTo chunk (data.take chunk.amount)) :=
      moves_write hfits (Nat.le_of_eq htake)
    unfold writeChunks
    rw [ends_bind]
    refine (ends_copyChunk .any h (fun _ _ => .inr trivial) hmoves
      fun _ _ hcopied => hcopied).with_run.imp ?_
    rintro r k₁ ⟨hcopied, hrun⟩
    cases r with
    | error error =>
      have hfails := h.pageFails hmoves (fun hmoved => ⟨_, hmoved.2⟩) hrun
      exact ⟨[], .error error, .stopped rfl .done hfails, List.nil_prefix, rfl⟩
    | ok _ =>
      have hstays := hcopied.stays_of_write h (htake.symm ▸ hfits)
      rw [← hstays.keeps.pageSize, ← List.length_drop] at hrest
      refine (ih hstays.sound hrest).imp ?_
      rintro r k' ⟨pieces, stop, hproceeds, hprefix, rfl⟩
      refine ⟨data.take chunk.amount :: pieces, stop, hproceeds.cons ⟨htake, hrun⟩, ?_, ?_⟩
      · have hfront := (List.prefix_append_right_inj (data.take chunk.amount)).2 hprefix
        rwa [List.take_append_drop] at hfront
      · rw [List.flatten_cons, List.length_append, htake, Nat.add_assoc]

/-! ## How a copy of a range ends -/

/-- A copy of `n` bytes at `vaddr`, in these chunks, has come to page `w` and is in `k₁`: all bytes
    before the page have been copied, and none of it or behind it. -/
structure ComesTo (pid : Pid) (write : Bool) (vaddr n : Nat) (list : List Chunk) (k : Kernel σ)
    (w : Vpn) (pieces : List Bytes) (k₁ : Kernel σ) : Prop where
  visits : ∃ before chunk after, list = before ++ chunk :: after ∧ chunk.vpn = w ∧
    Visits pid write before pieces k k₁
  meets : Meets k.pageSize vaddr n w
  length : pieces.flatten.length = w * k.pageSize - vaddr
  writable : write = true → ∀ v < w, Meets k.pageSize vaddr n v → k.readOnly? pid v = some false

/-- How a copy of `n` bytes at `vaddr`, in these chunks, ends. -/
inductive CopiesRange (pid : Pid) (write : Bool) (vaddr n : Nat) (list : List Chunk)
    (k : Kernel σ) : (copied : Bytes) → Except PagingError Unit → Kernel σ → Prop where
  /-- All bytes have been copied. -/
  | whole {pieces : List Bytes} {k' : Kernel σ} (hvisits : Visits pid write list pieces k k')
    (hlen : pieces.flatten.length = n)
    (hwritable : write = true → ∀ v, Meets k.pageSize vaddr n v → k.readOnly? pid v = some false) :
    CopiesRange pid write vaddr n list k pieces.flatten (.ok ()) k'
  /-- The first page that may not be written has been brought in, and left as it is. -/
  | refused {w : Vpn} {pieces : List Bytes} {m : Mapping} {k₁ k' : Kernel σ}
    (hcomes : ComesTo pid write vaddr n list k w pieces k₁)
    (hres : (resolve pid w).run.run k₁ = .ok (.ok m, k')) (hwrite : write = true)
    (hro : k.readOnly? pid w = some true) :
    CopiesRange pid write vaddr n list k pieces.flatten (.error (.readOnly w)) k'
  /-- A page could not be brought in. -/
  | failed {w : Vpn} {pieces : List Bytes} {error : PagingError} {k₁ k' : Kernel σ}
    (hcomes : ComesTo pid write vaddr n list k w pieces k₁)
    (hres : (resolve pid w).run.run k₁ = .ok (.error error, k'))
    (hother : ∀ v, error ≠ .readOnly v) :
    CopiesRange pid write vaddr n list k pieces.flatten (.error error) k'

theorem Proceeds.copiesRange {stop : Except PagingError Unit} {len : Nat}
    (h : Proceeds pid write list k pieces stop k') (hk : k.Sound pins none)
    (hlist : Consecutive k.pageSize vaddr len list) (hcuts : Cuts k.pageSize vaddr n list) :
    CopiesRange pid write vaddr n list k pieces.flatten stop k' := by
  have hfits : ∀ chunk ∈ list, chunk.offset + chunk.amount ≤ k.memory.pageSize :=
    fun chunk hmem => (hcuts.within chunk hmem).2
  cases h with
  | whole hvisits =>
    have hsum := congrArg List.length (hlist.addresses.symm.trans hcuts.addresses)
    rw [List.length_range', List.length_range'] at hsum
    refine .whole hvisits (hvisits.length_flatten.trans hsum) fun hwrite v hmeets => ?_
    obtain ⟨chunk, hmem, rfl⟩ := (hcuts.pages v).2 hmeets
    exact hvisits.writable hk hfits hwrite chunk hmem
  | @stopped before after chunk _ _ k₁ _ hlist' hvisits hfails =>
    subst hlist'
    have hbefore := hvisits.stays hk fun chunk hmem => hfits chunk (List.mem_append_left _ hmem)
    have hcomes : ComesTo pid write vaddr n (before ++ chunk :: after) k chunk.vpn pieces k₁ := by
      refine ⟨⟨before, chunk, after, rfl, rfl, hvisits⟩,
        (hcuts.pages _).1 ⟨chunk, by simp, rfl⟩, ?_, fun hwrite v hlt hmeets => ?_⟩
      · exact hvisits.length_flatten.trans hlist.sum_before
      · obtain ⟨earlier, hmem, rfl⟩ := (hcuts.pages v).2 hmeets
        obtain ⟨-, hlater, -⟩ := List.pairwise_append.1 hcuts.ascending
        rcases List.mem_append.1 hmem with hmem | hmem
        · exact hvisits.writable hk (fun chunk hmem => hfits chunk (List.mem_append_left _ hmem))
            hwrite earlier hmem
        · -- the pages ascend
          rcases List.mem_cons.1 hmem with rfl | hmem
          · exact absurd hlt (Nat.lt_irrefl _)
          · exact absurd hlt (Nat.lt_asymm ((List.pairwise_cons.1 hlater).1 earlier hmem))
    cases hfails with
    | fault hres =>
      exact .failed hcomes hres fun _ => (hbefore.sound.resolved .any hres).ne_readOnly
    | readOnly hres hwrite hro =>
      exact .refused hcomes hres hwrite (hbefore.keeps.readOnly?_eq ▸ hro)

/-- A copy that does not fail has copied all bytes. -/
theorem CopiesRange.map_length {stop : Except PagingError Unit} {copied : Bytes}
    (h : CopiesRange pid write vaddr n list k copied stop k') :
    (stop.map fun _ => copied.length) = stop.map fun _ => n := by
  cases h with
  | whole _ hlen => exact congrArg Except.ok hlen
  | refused => rfl
  | failed => rfl

/-- Pages that are a power of two, and no larger than all addresses, end where the addresses do. -/
theorem Reachable.dvd_addressLimit (h : k.Reachable) (hsize : k.pageSize ≤ 2 ^ 31) :
    k.pageSize ∣ addressLimit := by
  have hpower : 2 ^ k.pageSize.log2 = k.pageSize := h.pageSize
  rw [← hpower] at hsize ⊢
  have hlog : k.pageSize.log2 ≤ 31 := (Nat.pow_le_pow_iff_right (by decide)).1 hsize
  exact Nat.pow_dvd_pow 2 (Nat.le_succ_of_le hlog)

theorem ends_readBytes_copiesRange {p : Process} {buffer : Bytes} (h : k.Sound pins none)
    (hlimit : k.pageSize ∣ addressLimit) (hp : k.residency.process? pid = some p)
    (hlive : p.exited = false) :
    Ends (fun _ => True) (readBytes pid vaddr buffer) k fun r k' => ∃ copied stop,
      CopiesRange pid false vaddr (covered k.pageSize p.numPages vaddr buffer.length)
        (chunks k.pageSize p.numPages vaddr buffer.length) k copied stop k' ∧
      r.1 = (stop.map fun _ => covered k.pageSize p.numPages vaddr buffer.length) ∧
      r.2 = copied ++ buffer.drop copied.length := by
  have hpos : 0 < k.pageSize := h.memory.pageSize_pos
  unfold readBytes
  rw [step_ends_bind]
  refine ends_liveProcess (fun hdead => ?_) fun p' hp' _ => ?_
  · cases hlive.symm.trans (hdead p hp)
  cases hp.symm.trans hp'
  dsimp only
  rw [step_ends_bind, step_ends_get, step_ends_bind, step_ends_lift]
  refine h.ends_cut (.inr trivial) ?_
  rw [step_ends_bind]
  refine (ends_readChunks_proceeds h (consecutive_chunks hpos)).imp ?_
  rintro ⟨stop, bytes⟩ k' ⟨pieces, hproceeds, rfl⟩
  have hcopies := hproceeds.copiesRange h (consecutive_chunks hpos) (cuts_chunks hpos hlimit)
  refine ⟨pieces.flatten, stop, hcopies, hcopies.map_length, ?_⟩
  simp [Bytes.overwrite]

theorem ends_writeBytes_copiesRange {p : Process} (h : k.Sound pins none)
    (hlimit : k.pageSize ∣ addressLimit) (hp : k.residency.process? pid = some p)
    (hlive : p.exited = false) :
    Ends (fun _ => True) (writeBytes pid vaddr data).run k fun r k' => ∃ copied stop,
      CopiesRange pid true vaddr (covered k.pageSize p.numPages vaddr data.length)
        (chunks k.pageSize p.numPages vaddr data.length) k copied stop k' ∧
      r = (stop.map fun _ => covered k.pageSize p.numPages vaddr data.length) ∧
      copied <+: data := by
  have hpos : 0 < k.pageSize := h.memory.pageSize_pos
  unfold writeBytes
  rw [ends_bind]
  refine ends_liveProcess (fun hdead => ?_) fun p' hp' _ => ?_
  · cases hlive.symm.trans (hdead p hp)
  cases hp.symm.trans hp'
  dsimp only
  rw [ends_bind, ends_get]
  dsimp only
  rw [ends_bind, ends_lift]
  refine h.ends_cut (.inr trivial) ?_
  refine (ends_writeChunks_proceeds h (consecutive_chunks hpos)).imp ?_
  rintro _ k' ⟨pieces, stop, hproceeds, hprefix, rfl⟩
  have hcopies := hproceeds.copiesRange h (consecutive_chunks hpos) (cuts_chunks hpos hlimit)
  rw [Nat.zero_add]
  exact ⟨pieces.flatten, stop, hcopies, hcopies.map_length, hprefix⟩

end Copies

end Kernel

end DemandPaging
