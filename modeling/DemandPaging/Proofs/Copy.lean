/-
  Copies keep the kernel sound, and pins balanced.

  Pinning a page adds one pin to its frame in the ledger `pins`, unpinning takes it back.  A
  copy pins the page of each chunk while it moves its bytes, so that it leaves the ledger
  as it was, whatever fails.
-/
import DemandPaging.Kernel.Transfer
import DemandPaging.Proofs.Access

namespace DemandPaging

/-- One pin more on frame `f`. -/
def addPin (pins : Frame → Nat) (f g : Frame) : Nat := if g = f then pins g + 1 else pins g

/-- One pin less on frame `f`. -/
def dropPin (pins : Frame → Nat) (f g : Frame) : Nat := if g = f then pins g - 1 else pins g

@[simp] theorem addPin_self {pins : Frame → Nat} {f : Frame} : addPin pins f f = pins f + 1 :=
  if_pos rfl

@[simp] theorem dropPin_self {pins : Frame → Nat} {f : Frame} : dropPin pins f f = pins f - 1 :=
  if_pos rfl

theorem addPin_ne {pins : Frame → Nat} {f g : Frame} (h : g ≠ f) : addPin pins f g = pins g :=
  if_neg h

theorem dropPin_ne {pins : Frame → Nat} {f g : Frame} (h : g ≠ f) : dropPin pins f g = pins g :=
  if_neg h

@[simp] theorem dropPin_addPin {pins : Frame → Nat} {f : Frame} :
    dropPin (addPin pins f) f = pins := by
  funext g
  by_cases h : g = f
  · rw [h, dropPin_self, addPin_self, Nat.add_sub_cancel]
  · rw [dropPin_ne h, addPin_ne h]

namespace Kernel

variable {σ : Type} {c : Conduct σ} {V : Violation → Prop} {pins : Frame → Nat}
  {k k' k₁ : Kernel σ} {pid : Pid} {v : Vpn} {e : PageEntry} {f : Frame} {write : Bool}

/-! ## Pinning -/

/-- The kernel with page `v` of process `pid` referenced in its frame `f`, which has `n`
    pins. -/
def referenced (k : Kernel σ) (pid : Pid) (v : Vpn) (e : PageEntry) (f : Frame) (n : Nat) :
    Kernel σ :=
  { k with residency := k.residency.link pid v e f (.holding pid e n) }

/-- How pinning page `v` of process `pid` may end. -/
inductive PinnedPage (c : Conduct σ) (pins : Frame → Nat) (pid : Pid) (v : Vpn) (write : Bool)
    (k : Kernel σ) : Except PagingError Frame → Kernel σ → Prop where
  | failed {error k'} (hres : Resolved c pins pid v k (.error error) k') :
    PinnedPage c pins pid v write k (.error error) k'
  | refused {m k'} (hres : Resolved c pins pid v k (.ok m) k') (hwrite : write = true)
    (hro : m.readOnly = true) : PinnedPage c pins pid v write k (.error (.readOnly v)) k'
  | pinned {e : PageEntry} {f : Frame} {k₁} (hres : Resolved c pins pid v k (.ok e.mapping) k₁)
    (he : k₁.residency.page? pid v = some e) (hs : e.state = .resident f)
    (hwrite : write = true → e.readOnly = false) :
    PinnedPage c pins pid v write k (.ok f) (k₁.referenced pid v (e.touch write) f (pins f + 1))

/-- A frame that has been found for a page has no pins, unless the page was in it before. -/
theorem Resolved.resident_or_unpinned {m : Mapping} (hres : Resolved c pins pid v k (.ok m) k')
    (h : k.Sound pins none) (he : k'.residency.page? pid v = some e) (hs : e.state = .resident f) :
    k.residency.page? pid v = some e ∨ pins f = 0 := by
  cases hres with
  | there _ _ => exact .inl he
  | faulted _ _ he₀ hs₀ hin =>
    cases hin with
    | loaded hall hfetch _ =>
      have hgained := hall.gained h.faulting
      have hpage := hgained.elsewhere he₀ hs₀
      obtain ⟨_, _, rfl, -⟩ := hfetch.rest
      cases (Residency.page?_link_self hpage).symm.trans he
      cases hs
      exact .inr hgained.unpinned

/-- Only the frame that the page is in already may have too many pins for another one. -/
theorem ends_pinPage [BackingStore σ] (hc : Tolerated c V k) (h : k.Sound pins none)
    (hpin : ∀ {e f}, k.residency.page? pid v = some e → e.state = .resident f →
      pins f + 1 < limit32 ∨ V .overflow)
    {Q : Except PagingError Frame → Kernel σ → Prop}
    (hQ : ∀ r k', PinnedPage c pins pid v write k r k' → Q r k') :
    Ends V (pinPage pid v write).run k Q := by
  unfold pinPage
  rw [ends_bind]
  refine ends_resolve hc h fun r k₁ hres => ?_
  cases r with
  | error error => exact hQ _ _ (.failed hres)
  | ok m =>
    obtain ⟨⟨h₁, -⟩, e, f, he, hs, rfl⟩ := hres.ready h
    obtain ⟨p, hp, hreg, hentry⟩ := Residency.page?_eq_some_iff.1 he
    have hinfo := (h₁.frames.resident he hs).2
    have hppn : e.mapping.ppn = f := by simp [PageEntry.mapping, PageEntry.frame, hs]
    have hroom : pins f + 1 < limit32 ∨ V .overflow := by
      rcases hres.resident_or_unpinned h he hs with hthere | hzero
      · exact hpin hthere hs
      · exact .inl (hzero ▸ (by decide))
    have hlive : p.exited = false := h₁.live_of_registered hp hreg
    have htouch : p.table.touch v write = .ok (e.touch write, p.table.set v (e.touch write)) := by
      rw [PageTable.touch, PageTable.get_eq hentry]
      rfl
    have htable : k₁.residency.table? pid = some p.table :=
      Residency.table?_eq_some_iff.2 ⟨p, hp, hreg, rfl⟩
    dsimp only
    simp only [ends_bind, ends_ite, ends_throw]
    refine ⟨fun hrefuse => ?_, fun hallow => ?_⟩
    · simp only [Bool.and_eq_true] at hrefuse
      exact hQ _ _ (.refused hres hrefuse.1 hrefuse.2)
    · refine ends_liveProcess (fun hdead => absurd (hdead p hp) (by simp [hlive])) fun p' hp' _ => ?_
      cases hp.symm.trans hp'
      dsimp only
      rw [htouch]
      simp only [ends_ofExcept, mapError_ok, ends_change, Residency.setTable_eq htable, hppn]
      have hrecord : (k₁.residency.setEntry pid v (e.touch write)).frames.record f
          (e.touch write).mapping =
          .ok (k₁.residency.frames.put f (.holding pid (e.touch write) (pins f))) := by
        rw [Residency.setEntry, Residency.frames_updateProcess, FrameTable.record_eq hinfo]
        rfl
      have hput : (k₁.residency.frames.put f (.holding pid (e.touch write) (pins f))).info? f = _ :=
        FrameTable.info?_put_self hinfo
      rw [ends_onFrames hrecord]
      dsimp only
      unfold onFrames onResidency
      simp only [ends_bind, ends_get, ends_lift, Checked.ends_bind]
      refine FrameTable.pin_ends hput hroom fun hlt => ?_
      rw [FrameTable.put_put]
      refine hQ _ _ (.pinned hres he hs fun hw => ?_)
      have hro : ¬ (write && e.readOnly) = true := hallow
      simpa [hw] using hro

/-- A page that is marked as used, and as dirty if it may be written, keeps the kernel sound. -/
theorem Sound.marked (h : k.Sound pins none) (he : k.residency.page? pid v = some e)
    (hs : e.state = .resident f) (hwrite : write = true → e.readOnly = false) :
    (k.referenced pid v (e.touch write) f (pins f)).Sound pins none := by
  have hclean : e.readOnly = true → (e.dirty || write) = false := by
    intro hro
    rw [h.frames.clean he hro]
    cases hw : write with
    | false => rfl
    | true => exact hro.symm.trans (hwrite hw)
  have hbits : (k.residency.link pid v (e.touch write) f
      (.holding pid (e.touch write) (pins f))).Coherent pins none :=
    h.frames.rebit he hs hs rfl rfl hclean
  exact h.of_residency hbits (h.tlb.mono fun _ _ _ hb => hb.link he rfl rfl)
    (fun _ _ => Residency.state_link he rfl) FrameTable.size_put
    fun _ => Residency.outline?_link he rfl

/-- A pinned page keeps the kernel sound, with one pin more. -/
theorem Sound.referenced (h : k.Sound pins none) (he : k.residency.page? pid v = some e)
    (hs : e.state = .resident f) (hwrite : write = true → e.readOnly = false) :
    (k.referenced pid v (e.touch write) f (pins f + 1)).Sound (addPin pins f) none := by
  have hmarked := h.marked he hs hwrite
  have hput : ((k.residency.link pid v (e.touch write) f
      (.holding pid (e.touch write) (pins f))).frames.info? f) = _ :=
    FrameTable.info?_put_self (h.frames.resident he hs).2
  have hother : ∀ g, g ≠ f → addPin pins f g = pins g := fun g hg => addPin_ne hg
  have hlt : f < (k.residency.link pid v (e.touch write) f
      (.holding pid (e.touch write) (pins f))).frames.usable :=
    FrameTable.usable_put.symm ▸ h.frames.frame_lt he hs
  have hr := hmarked.frames.repin hput (h.frames.notMem_pool he hs) hother
    (by simp [FrameInfo.holding]) hlt
  unfold Kernel.referenced at hr
  rw [Residency.frames_link, FrameTable.put_put, addPin_self] at hr
  exact h.of_residency hr (h.tlb.mono fun _ _ _ hb => hb.link he rfl rfl)
    (fun _ _ => Residency.state_link he rfl) FrameTable.size_put
    fun _ => Residency.outline?_link he rfl

/-! ## Unpinning -/

/-- How taking a pin off frame `f` may end: the frame keeps its place, or it was waiting for
    this and goes to the pool. -/
inductive Unpinned (pins : Frame → Nat) (f : Frame) (k : Kernel σ) : Kernel σ → Prop where
  | kept {i} (hi : k.residency.frames.info? f = some i) (hpos : 0 < pins f)
    (hstay : ¬ (pins f = 1 ∧ i.freeWhenUnpinned = true)) :
    Unpinned pins f k { k with
      residency := { k.residency with
        frames := k.residency.frames.put f { i with pinCount := pins f - 1 } } }
  | freed {i} (hi : k.residency.frames.info? f = some i) (hone : pins f = 1)
    (hfree : i.freeWhenUnpinned = true) : Unpinned pins f k (k.withFree f)

/-- A frame with pins is not in the pool. -/
theorem Sound.notMem_of_pinned (h : k.Sound pins none) (hpos : 0 < pins f) :
    f ∉ k.residency.frames.pool.toList := by
  intro hmem
  have hcount : 0 = pins f := h.frames.pinned (h.frames.pooled hmem).2 (by simp)
  omega

/-- A frame with pins is in use. -/
theorem Sound.lt_usable_of_pinned (h : k.Sound pins none) {i : FrameInfo}
    (hi : k.residency.frames.info? f = some i) (hpos : 0 < pins f) :
    f < k.residency.frames.usable :=
  Nat.lt_of_not_le fun hle =>
    Nat.ne_of_gt hpos ((h.frames.atFrame (by simp)).pins_eq_zero hi hle)

theorem ends_unpin (h : k.Sound pins none) {i : FrameInfo}
    (hi : k.residency.frames.info? f = some i) (hpos : 0 < pins f)
    {Q : Except PagingError Unit → Kernel σ → Prop}
    (hQ : ∀ k', Unpinned pins f k k' → Q (.ok ()) k') :
    Ends V (onFrames (σ := σ) (·.unpin f)).run k Q := by
  have hcount : i.pinCount = pins f := h.frames.pinned hi (by simp)
  by_cases hstay : i.pinCount = 1 ∧ i.freeWhenUnpinned = true
  · have hunpin := FrameTable.unpin_eq_of_last hi hstay.1 hstay.2 (h.notMem_of_pinned hpos)
    exact (ends_onFrames hunpin).2 (hQ _ (.freed hi (hcount.symm.trans hstay.1) hstay.2))
  · have hunpin := FrameTable.unpin_eq hi (hcount.symm ▸ hpos) hstay
    rw [hcount] at hunpin hstay
    exact (ends_onFrames hunpin).2 (hQ _ (.kept hi hpos hstay))

theorem Unpinned.page? {q : Pid} {w : Vpn} (hun : Unpinned pins f k k') :
    k'.residency.page? q w = k.residency.page? q w := by
  cases hun <;> exact Residency.page?_frames

theorem Unpinned.keeps (hun : Unpinned pins f k k') : k.Keeps k' := by
  cases hun <;> exact ⟨rfl, rfl, rfl, rfl, fun _ => Residency.outline?_frames⟩

theorem Unpinned.frames (hun : Unpinned pins f k k') (h : k.Sound pins none) :
    k'.residency.Coherent (dropPin pins f) none := by
  cases hun with
  | @kept i hi hpos hstay =>
    have hpool := h.notMem_of_pinned hpos
    have hlt := h.lt_usable_of_pinned hi hpos
    have hwait : i.owner = none → 0 < dropPin pins f f ∧ i.freeWhenUnpinned = true := by
      intro ho
      obtain ⟨-, hwait⟩ := ((h.frames.idle hi (by simp) ho).2.resolve_left hpool).resolve_right
        (Nat.not_le.2 hlt)
      rw [dropPin_self]
      refine ⟨?_, hwait⟩
      have hne : pins f ≠ 1 := fun hone => hstay ⟨hone, hwait⟩
      omega
    have hother : ∀ g, g ≠ f → dropPin pins f g = pins g := fun g hg => dropPin_ne hg
    have hr := h.frames.repin hi hpool hother hwait hlt
    rwa [dropPin_self] at hr
  | @freed i hi hone hfree =>
    have ho : i.owner = none := by
      cases ho : i.owner with
      | none => rfl
      | some q =>
        obtain ⟨e, -, -, rfl⟩ := h.frames.owned hi (by simp) ho
        cases hfree
    have hpos : 0 < pins f := hone ▸ Nat.one_pos
    have hloose := h.frames.loosen hi ho (h.notMem_of_pinned hpos) (h.lt_usable_of_pinned hi hpos)
    have hblank : Residency.Coherent (dropPin pins f) (some f)
        { k.residency with frames := k.residency.frames.put f {} } :=
      hloose.putLoose fun g hg => dropPin_ne hg
    have hr := hblank.giveBack (by rw [dropPin_self, hone])
    simp only [FrameTable.put_put, FrameTable.pool_put] at hr
    exact hr

theorem Unpinned.sound (hun : Unpinned pins f k k') (h : k.Sound pins none) :
    k'.Sound (dropPin pins f) none := by
  have hr := hun.frames h
  have hpage : ∀ q w, k'.residency.page? q w = k.residency.page? q w := fun q w => hun.page?
  have hkeeps := hun.keeps
  have hsize : k'.residency.frames.size = k.residency.frames.size := by
    cases hun <;> exact FrameTable.size_put
  have hrest : k' = { k with residency := k'.residency } := by cases hun <;> rfl
  rw [hrest]
  refine h.of_residency hr (h.tlb.mono ?_) (fun q w => by rw [hpage]) hsize hkeeps.outline
  rintro slot q - - - ⟨e, he, hrest⟩
  exact ⟨e, (hpage q _).trans he, hrest⟩

/-! ## Chunks -/

section Chunks

variable {pageSize numPages vaddr len : Nat} {chunk : Chunk}

/-- A chunk lies in the address space, where an address reaches it, and stays inside its page. -/
theorem chunk_within (hsize : 0 < pageSize) (hmem : chunk ∈ chunks pageSize numPages vaddr len) :
    chunk.vpn < numPages ∧ chunk.offset + chunk.amount ≤ pageSize ∧
      chunk.vpn ≤ pageOf pageSize (addressLimit - 1) := by
  have hfrom : ∀ fuel done, ∀ chunk ∈ chunksFrom pageSize numPages vaddr len fuel done,
      chunk.vpn < numPages ∧ chunk.offset + chunk.amount ≤ pageSize ∧
        chunk.vpn ≤ pageOf pageSize (addressLimit - 1) := by
    intro fuel
    induction fuel with
    | zero =>
      intro done chunk hmem
      cases hmem
    | succ fuel ih =>
      intro done chunk hmem
      unfold chunksFrom at hmem
      dsimp only at hmem
      split at hmem
      · cases hmem
      · next hgo =>
        rcases List.mem_cons.1 hmem with rfl | hrest
        · have hlt : offsetIn pageSize (vaddr + done) < pageSize := Nat.mod_lt _ hsize
          simp only [not_or, Nat.not_le] at hgo
          exact ⟨hgo.2.2, by dsimp only; omega, pageOf_le (by omega)⟩
        · exact ih _ chunk hrest
  exact hfrom len 0 chunk hmem

theorem chunk_fits (hsize : 0 < pageSize) (hmem : chunk ∈ chunks pageSize numPages vaddr len) :
    chunk.offset + chunk.amount ≤ pageSize :=
  (chunk_within hsize hmem).2.1

/-- Where there is no address to divide there are no chunks. -/
theorem chunks_eq_nil (h : len = 0 ∨ addressLimit ≤ vaddr) :
    chunks pageSize numPages vaddr len = [] := by
  cases len with
  | zero => rfl
  | succ len =>
    rw [chunks, chunksFrom, if_pos (.inr (.inl (h.resolve_left (Nat.succ_ne_zero len))))]

theorem Sound.ends_cut (h : k.Sound pins none)
    (hV : k.memory.pageSize < limit32 ∨ V .divisionByZero) {Q : List Chunk → Prop}
    (hQ : Q (chunks k.memory.pageSize numPages vaddr len)) :
    Checked.Ends V (cut k.pageSize numPages vaddr len) Q := by
  unfold cut
  rw [Checked.ends_ite, Checked.ends_bind]
  refine ⟨fun hnone => ?_, fun _ => h.ends_divisor hV fun _ => hQ⟩
  rwa [chunks_eq_nil hnone] at hQ

theorem Sound.cut_eq_ok {cs : List Chunk} (h : k.Sound pins none)
    (hcut : cut k.pageSize numPages vaddr len = .ok cs) :
    cs = chunks k.memory.pageSize numPages vaddr len :=
  (Checked.ends_of_eq_ok hcut).1
    (h.ends_cut (V := fun _ => True) (Q := (· = chunks k.memory.pageSize numPages vaddr len))
      (.inr trivial) rfl)

end Chunks

/-! ## Copying -/

/-- The copy of a chunk to or from frame `f` ends with an answer and a memory in `R`, and keeps
    the rest. -/
def Moves {α : Type} (V : Violation → Prop) (pageSize : Nat) (chunk : Chunk)
    (copy : Nat → KernelM σ α)
    (R : Frame → PhysicalMemory → Except PagingError α → PhysicalMemory → Prop) : Prop :=
  ∀ k : Kernel σ, k.memory.Formed → k.memory.pageSize = pageSize → ∀ f < k.memory.numFrames,
    Ends V (copy (f * pageSize + chunk.offset)).run k fun r k' =>
      ∃ memory : PhysicalMemory, k' = { k with memory } ∧ R f k.memory r memory

/-- The bytes of a chunk in frame `f` have been read. -/
def ReadFrom (chunk : Chunk) (f : Frame) (mem : PhysicalMemory) (r : Except PagingError Bytes)
    (mem' : PhysicalMemory) : Prop :=
  mem' = mem ∧
    r = .ok (Bytes.slice mem.bytes.toList (f * mem.pageSize + chunk.offset) chunk.amount)

/-- The bytes of a chunk in frame `f` have been replaced. -/
def WrittenTo (chunk : Chunk) (data : Bytes) (f : Frame) (mem : PhysicalMemory)
    (r : Except PagingError Unit) (mem' : PhysicalMemory) : Prop :=
  mem' = mem.patch (f * mem.pageSize + chunk.offset) data ∧ r = .ok ()

theorem moves_read {pageSize : Nat} {chunk : Chunk}
    (hfits : chunk.offset + chunk.amount ≤ pageSize) :
    Moves (σ := σ) V pageSize chunk (fun address => reading (·.read address chunk.amount))
      (ReadFrom chunk) := by
  rintro k hformed rfl f hf
  exact (ends_reading (PhysicalMemory.read_eq hformed (PhysicalMemory.place_le hf hfits))).2
    ⟨k.memory, rfl, rfl, rfl⟩

theorem moves_write {pageSize : Nat} {chunk : Chunk} {data : Bytes}
    (hfits : chunk.offset + chunk.amount ≤ pageSize) (hdata : data.length ≤ chunk.amount) :
    Moves (σ := σ) V pageSize chunk (fun address => writing (·.write address data))
      (WrittenTo chunk data) := by
  rintro k hformed rfl f hf
  have hin : f * k.memory.pageSize + chunk.offset + data.length ≤ k.memory.capacity :=
    PhysicalMemory.place_le hf (Nat.le_trans (Nat.add_le_add_left hdata _) hfits)
  exact (ends_writing (PhysicalMemory.write_eq hformed hin)).2 ⟨_, rfl, rfl, rfl⟩

/-- How copying a chunk may end: its page cannot be pinned, or the bytes have moved and the pin
    is gone again. -/
inductive Copied {α : Type} (c : Conduct σ) (pins : Frame → Nat) (pid : Pid) (v : Vpn)
    (write : Bool) (R : Frame → PhysicalMemory → Except PagingError α → PhysicalMemory → Prop)
    (k : Kernel σ) : Except PagingError α → Kernel σ → Prop where
  | failed {error k'} (hres : Resolved c pins pid v k (.error error) k') :
    Copied c pins pid v write R k (.error error) k'
  | refused {m k'} (hres : Resolved c pins pid v k (.ok m) k') (hwrite : write = true)
    (hro : m.readOnly = true) : Copied c pins pid v write R k (.error (.readOnly v)) k'
  | moved {e : PageEntry} {f : Frame} {k₁ r memory}
    (hres : Resolved c pins pid v k (.ok e.mapping) k₁)
    (he : k₁.residency.page? pid v = some e) (hs : e.state = .resident f)
    (hwrite : write = true → e.readOnly = false) (hmoved : R f k₁.memory r memory) :
    Copied c pins pid v write R k r
      { k₁.referenced pid v (e.touch write) f (pins f) with memory }

/-- The copy of a chunk whose bytes move as said keeps the kernel sound. -/
theorem Copied.stays {α : Type}
    {R : Frame → PhysicalMemory → Except PagingError α → PhysicalMemory → Prop}
    {r : Except PagingError α} (hcopied : Copied c pins pid v write R k r k')
    (h : k.Sound pins none)
    (hR : ∀ f mem r mem', mem.Formed → mem.pageSize = k.memory.pageSize → f < mem.numFrames →
      R f mem r mem' →
        mem'.Formed ∧ mem'.pageSize = mem.pageSize ∧ mem'.numFrames = mem.numFrames) :
    Stays pins k k' := by
  cases hcopied with
  | failed hres => exact hres.stays h
  | refused hres _ _ => exact (hres.ready h).toStays
  | @moved e f k₁ _ memory hres he hs hwrite hmoved =>
    obtain ⟨⟨h₁, hkeeps⟩, -⟩ := hres.ready h
    have hf : f < k₁.memory.numFrames :=
      h₁.numFrames ▸ FrameTable.lt_size (h₁.frames.resident he hs).2
    obtain ⟨hformed, hsize, hframes⟩ := hR f _ _ _ h₁.memory hkeeps.pageSize hf hmoved
    refine ⟨(h₁.marked he hs hwrite).of_memory hformed hsize hframes, hkeeps.trans ?_⟩
    exact ⟨rfl, rfl, hsize, rfl, fun _ => Residency.outline?_link he rfl⟩

theorem Copied.stays_of_read {chunk : Chunk} {r : Except PagingError Bytes}
    (hcopied : Copied c pins pid v write (ReadFrom chunk) k r k') (h : k.Sound pins none) :
    Stays pins k k' := by
  refine hcopied.stays h ?_
  rintro f mem r _ hformed - - ⟨rfl, -⟩
  exact ⟨hformed, rfl, rfl⟩

theorem Copied.stays_of_write {chunk : Chunk} {data : Bytes} {r : Except PagingError Unit}
    (hcopied : Copied c pins pid v write (WrittenTo chunk data) k r k') (h : k.Sound pins none)
    (hfits : chunk.offset + data.length ≤ k.memory.pageSize) : Stays pins k k' := by
  refine hcopied.stays h ?_
  rintro f mem r _ hformed hsize hf ⟨rfl, -⟩
  exact ⟨hformed.patch (PhysicalMemory.place_le hf (hsize ▸ hfits)), rfl, rfl⟩

/-- The chunks that are left are in pages of the same size. -/
theorem Keeps.fits_rest {chunk : Chunk} {rest : List Chunk} (hkeeps : k.Keeps k')
    (hfits : ∀ chunk' ∈ chunk :: rest, chunk'.offset + chunk'.amount ≤ k.memory.pageSize) :
    ∀ chunk' ∈ rest, chunk'.offset + chunk'.amount ≤ k'.memory.pageSize := by
  rw [hkeeps.pageSize]
  exact fun chunk' hmem => hfits chunk' (List.mem_cons_of_mem _ hmem)

section Copying

variable [BackingStore σ]

theorem ends_copyChunk {α : Type} {chunk : Chunk} {copy : Nat → KernelM σ α}
    {R : Frame → PhysicalMemory → Except PagingError α → PhysicalMemory → Prop}
    (hc : Tolerated c V k) (h : k.Sound pins none)
    (hpin : ∀ {e f}, k.residency.page? pid chunk.vpn = some e → e.state = .resident f →
      pins f + 1 < limit32 ∨ V .overflow) (hcopy : Moves V k.memory.pageSize chunk copy R)
    {Q : Except PagingError α → Kernel σ → Prop}
    (hQ : ∀ r k', Copied c pins pid chunk.vpn write R k r k' → Q r k') :
    Ends V (copyChunk pid write chunk copy).run k Q := by
  unfold copyChunk
  rw [ends_bind]
  refine ends_pinPage hc h hpin fun r k₁ hpage => ?_
  cases hpage with
  | failed hres => exact hQ _ _ (.failed hres)
  | refused hres hwrite hro => exact hQ _ _ (.refused hres hwrite hro)
  | @pinned e f k₁ hres he hs hwrite =>
    obtain ⟨⟨h₁, hkeeps⟩, -⟩ := hres.ready h
    have hpinned := h₁.referenced he hs hwrite
    have hps : k₁.memory.pageSize = k.memory.pageSize := hkeeps.pageSize
    have hf : f < k₁.memory.numFrames :=
      h₁.numFrames ▸ FrameTable.lt_size (h₁.frames.resident he hs).2
    have hsize : (k₁.referenced pid chunk.vpn (e.touch write) f (pins f + 1)).pageSize =
      k.memory.pageSize := hps
    dsimp only
    simp only [ends_bind, ends_get, ends_observe, hsize]
    refine (hcopy _ hpinned.memory hps f hf).imp ?_
    rintro r _ ⟨memory, rfl, hmoved⟩
    have hinfo : (k₁.residency.frames.put f (.holding pid (e.touch write) (pins f + 1))).info? f = _ :=
      FrameTable.info?_put_self (h₁.frames.resident he hs).2
    have hunpin : (k₁.residency.frames.put f
        (.holding pid (e.touch write) (pins f + 1))).unpin f =
        .ok (k₁.residency.frames.put f (.holding pid (e.touch write) (pins f))) := by
      rw [FrameTable.unpin_eq hinfo (Nat.succ_pos _) (by simp [FrameInfo.holding]),
        FrameTable.put_put]
      rfl
    refine (ends_onFrames hunpin).2 ?_
    have hdone := hQ r _ (.moved hres he hs hwrite hmoved)
    cases r <;> exact hdone

theorem readChunks_stays {list : List Chunk} {pieces : List Bytes} (hc : Tolerated c V k)
    (h : k.Sound pins none) (hpin : ∀ f, pins f + 1 < limit32 ∨ V .overflow)
    (hfits : ∀ chunk ∈ list, chunk.offset + chunk.amount ≤ k.memory.pageSize) :
    Ends V (readChunks pid list pieces) k fun _ k' => Stays pins k k' := by
  induction list generalizing k pieces with
  | nil => exact .refl h
  | cons chunk rest ih =>
    unfold readChunks
    rw [step_ends_bind]
    refine ends_copyChunk hc h (fun _ _ => hpin _) (moves_read (hfits chunk List.mem_cons_self)) ?_
    intro r k₁ hcopied
    have hstays := hcopied.stays_of_read h
    cases r with
    | error error => exact hstays
    | ok bytes =>
      have hc₁ : Tolerated c V k₁ := hc.of_keeps hstays.keeps
      exact (ih hc₁ hstays.sound (hstays.keeps.fits_rest hfits)).imp
        fun _ _ hrest => hstays.trans hrest

theorem writeChunks_stays {list : List Chunk} {data : Bytes} {moved : Nat}
    (hc : Tolerated c V k) (h : k.Sound pins none)
    (hpin : ∀ f, pins f + 1 < limit32 ∨ V .overflow)
    (hfits : ∀ chunk ∈ list, chunk.offset + chunk.amount ≤ k.memory.pageSize) :
    Ends V (writeChunks pid list data moved).run k fun _ k' => Stays pins k k' := by
  induction list generalizing k data moved with
  | nil => exact .refl h
  | cons chunk rest ih =>
    unfold writeChunks
    rw [ends_bind]
    have hchunk := hfits chunk List.mem_cons_self
    have htake : (data.take chunk.amount).length ≤ chunk.amount := List.length_take_le _ _
    refine ends_copyChunk hc h (fun _ _ => hpin _) (moves_write hchunk htake) ?_
    intro r k₁ hcopied
    have hstays := hcopied.stays_of_write h (by omega)
    cases r with
    | error error => exact hstays
    | ok _ =>
      have hc₁ : Tolerated c V k₁ := hc.of_keeps hstays.keeps
      exact (ih hc₁ hstays.sound (hstays.keeps.fits_rest hfits)).imp
        fun _ _ hrest => hstays.trans hrest

theorem readBytes_stays {vaddr : Nat} {buffer : Bytes} (hc : Tolerated c V k)
    (h : k.Sound pins none) (hpin : ∀ f, pins f + 1 < limit32 ∨ V .overflow) :
    Ends V (readBytes pid vaddr buffer) k fun _ k' => Stays pins k k' := by
  unfold readBytes
  rw [step_ends_bind]
  refine ends_liveProcess (fun _ => .refl h) fun p _ _ => ?_
  dsimp only
  rw [step_ends_bind, step_ends_get, step_ends_bind, step_ends_lift]
  refine h.ends_cut hc.divides ?_
  rw [step_ends_bind]
  exact (readChunks_stays hc h hpin fun _ hmem =>
    chunk_fits h.memory.pageSize_pos hmem).imp fun _ _ hstays => hstays

theorem writeBytes_stays {vaddr : Nat} {data : Bytes} (hc : Tolerated c V k)
    (h : k.Sound pins none) (hpin : ∀ f, pins f + 1 < limit32 ∨ V .overflow) :
    Ends V (writeBytes pid vaddr data).run k fun _ k' => Stays pins k k' := by
  unfold writeBytes
  rw [ends_bind]
  refine ends_liveProcess (fun _ => .refl h) fun p _ _ => ?_
  dsimp only
  rw [ends_bind, ends_get]
  dsimp only
  rw [ends_bind, ends_lift]
  refine h.ends_cut hc.divides ?_
  exact writeChunks_stays hc h hpin fun _ hmem => chunk_fits h.memory.pageSize_pos hmem

end Copying

end Kernel

end DemandPaging
