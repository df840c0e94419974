/-
  The errors of an access.

  An access to a page of a process fails for a reason that the kernel shows (`Warranted`): there is
  no frame to take, the store has not taken the content of a victim or not delivered that of the
  page, or the page may not be written.  When there is no frame to take, it fails for that reason
  and no other.

  * `Resolved.accounted`: finding a frame for the page;
  * `ends_instruction`: an instruction whose bytes stay in the page;
  * `Copied.accounted`: a chunk of a copy;
  * `ends_carryOut`: any access to one page.
-/
import DemandPaging.Proofs.Agreement
import DemandPaging.Proofs.Instructions
import DemandPaging.Proofs.Unstopped

namespace DemandPaging

/-- A store does what it does, and delivers as many bytes as are asked for. -/
def Conduct.actual (σ : Type) [BackingStore σ] : Conduct σ where
  reads s offset len r s' := (BackingStore.read offset len).run.run s = .ok (r, s') ∧
    ∀ bytes, r = .ok bytes → bytes.length = len
  writes s offset src r s' := (BackingStore.write offset src).run.run s = .ok (r, s')

theorem Conduct.actual_holds {σ : Type} [BackingStore σ] {V : Violation → Prop}
    (h : (fullReads σ).Holds V) : (actual σ).Holds V where
  read s offset len := (h.read s offset len).with_run.imp fun _ _ hread => hread.symm
  write s offset src := (h.write s offset src).with_run.imp fun _ _ hwrite => hwrite.2
  length hread := .inl (hread.2 _ rfl)

namespace Kernel

variable {σ : Type} {c : Conduct σ} {V : Violation → Prop} {pins : Frame → Nat}
  {k k' k₁ : Kernel σ} {pid : Pid} {v : Vpn} {e : PageEntry} {f : Frame} {p : Process}
  {write : Bool} {vaddr : Nat}

/-! ## Reasons to fail -/

/-- There is no frame to take: the pool is empty, and every frame is pinned. -/
def Exhausted (k : Kernel σ) : Prop :=
  k.residency.frames.pool.toList = [] ∧
    ∀ f i, k.residency.frames.info? f = some i → i.isPinned = true

section Reasons

variable [BackingStore σ]

/-- The pool being empty, the content of frame `f`, which has an owner and no pin, is written to
    the next slot.  The store answers `r`, and is `store` then. -/
def WritesOut (k : Kernel σ) (f : Frame) (r : Except StoreError Unit) (store : σ) : Prop :=
  k.residency.frames.pool.toList = [] ∧
    (∃ i, k.residency.frames.info? f = some i ∧ i.isOwned = true ∧ i.isPinned = false) ∧
    (BackingStore.write (k.swap.offset k.swap.slots.next) (k.memory.frameBytes f)).run.run
      k.swap.store = .ok (r, store)

/-- The store answers `error` to the write of a victim, or to the read of the page with entry `e`,
    which comes after the write of a victim if the pool is empty. -/
def StoreFailed (k : Kernel σ) (e : PageEntry) (error : StoreError) : Prop :=
  (∃ f store, k.WritesOut f (.error error) store) ∨
    ∃ s store store', e.state = .swapped s ∧
      (store = k.swap.store ∨ ∃ f, k.WritesOut f (.ok ()) store) ∧
      (BackingStore.read (k.swap.offset s) k.swap.pageSize).run.run store =
        .ok (.error error, store')

/-- An access to page `v`, with entry `e`, has a reason to fail with an error. -/
def Warranted (k : Kernel σ) (v : Vpn) (write : Bool) (e : PageEntry) : PagingError → Prop
  | .outOfMemory => k.Exhausted
  | .readOnly w => w = v ∧ write = true ∧ e.readOnly = true
  | .swap error => k.StoreFailed e error
  | _ => False

/-- The answer to an access is an error only for a reason, and is the error that it has to be if
    there is no frame for the page. -/
structure Accounted {α : Type} (k : Kernel σ) (v : Vpn) (write : Bool) (e : PageEntry)
    (r : Except PagingError α) : Prop where
  warranted : ∀ {error}, r = .error error → k.Warranted v write e error
  starved : k.Exhausted → (∀ f, e.state ≠ .resident f) → r = .error .outOfMemory

/-- An access that has been answered so far fails, if it does, for a reason of its own. -/
theorem Accounted.next {α β : Type} {a : α} {r : Except PagingError β}
    (h : k.Accounted v write e (.ok a : Except PagingError α))
    (hr : ∀ error, r = .error error → k.Warranted v write e error) : k.Accounted v write e r :=
  ⟨hr _, fun hex hs => absurd (h.starved hex hs) (by simp)⟩

theorem Accounted.ok {α β : Type} {a : α} {b : β}
    (h : k.Accounted v write e (.ok a : Except PagingError α)) :
    k.Accounted v write e (.ok b : Except PagingError β) :=
  h.next (by simp)

theorem Accounted.error {α β : Type} {error : PagingError}
    (h : k.Accounted v write e (.error error : Except PagingError α)) :
    k.Accounted v write e (.error error : Except PagingError β) := by
  refine ⟨?_, fun hex hs => ?_⟩
  · rintro _ ⟨⟩
    exact h.warranted rfl
  · cases h.starved hex hs
    rfl

/-- A page that is in a frame needs none. -/
theorem Accounted.of_resident {α : Type} {r : Except PagingError α} (hs : e.state = .resident f)
    (hr : ∀ error, r = .error error → k.Warranted v write e error) : k.Accounted v write e r :=
  ⟨hr _, fun _ hnot => absurd hs (hnot f)⟩

end Reasons

/-! ## Getting a frame -/

/-- Without a victim, every frame is pinned. -/
theorem Sound.exhausted {r : Residency} (h : k.Sound pins none)
    (hsize : k.config.physPages < limit32) (hempty : k.residency.frames.takeOne = none)
    (hselect : k.harvested.residency.selectVictim = .ok (none, r)) : k.Exhausted := by
  have hpool := FrameTable.takeOne_eq_none.1 hempty
  refine ⟨hpool, fun f i hi => ?_⟩
  have hlt := h.lt_usable hsize hi
  cases ho : i.isOwned with
  | false =>
    -- a frame that nobody owns and nothing holds would be in the pool
    refine Bool.of_not_eq_false fun hpin => ?_
    have hmem := (h.unowned hi ho hlt).1.2 hpin
    rw [hpool] at hmem
    cases hmem
  | true =>
    obtain ⟨q, hq⟩ := Option.isSome_iff_exists.1 ho
    obtain ⟨e, he, hs, heq⟩ := h.frames.owned hi (by simp) hq
    have he' : k.harvested.residency.page? q i.mapping.vpn = some (e.absorb k.tlb.harvest.1) :=
      Residency.page?_absorb.trans (by rw [he]; rfl)
    have hinfo := (h.harvested.frames.resident he' (PageEntry.state_absorb.trans hs)).2
    have hpin : (FrameInfo.holding q (e.absorb k.tlb.harvest.1) (pins f)).isPinned = true :=
      Residency.pinned_of_selectVictim hselect h.harvested.frames.hand_lt hinfo
        (Nat.lt_trans hlt FrameTable.usable_lt) rfl
    rw [heq]
    exact hpin

/-- The clock gives a frame that has an owner and no pin. -/
theorem Chosen.victim {r : Residency} (hchosen : Chosen pins k f pid v e r)
    (h : k.Sound pins none) :
    ∃ i, k.residency.frames.info? f = some i ∧ i.isOwned = true ∧ i.isPinned = false := by
  obtain ⟨j, hj, howner, -⟩ := hchosen.swept.owned rfl
  have hsize : r.frames.size = k.residency.frames.size :=
    hchosen.swept.size.trans (Residency.size_map (r := k.residency))
  have hlt : f < k.residency.frames.usable := by
    have husable : r.frames.usable = k.residency.frames.usable := congrArg (· % limit32) hsize
    exact husable ▸ (hchosen.swept.coherent.atFrame (by simp)).lt_usable hj howner
  obtain ⟨i, hi⟩ := FrameTable.lt_size_iff.1 (Nat.lt_of_lt_of_le hlt FrameTable.usable_le)
  have hpin : i.isPinned = false := by
    have hcount : i.pinCount = pins f := h.frames.pinned hi (by simp)
    rw [FrameInfo.isPinned, hcount, hchosen.unpinned]
    rfl
  refine ⟨i, hi, Bool.of_not_eq_false fun ho => ?_, hpin⟩
  have hmem := (h.unowned hi ho hlt).1.2 hpin
  rw [FrameTable.takeOne_eq_none.1 hchosen.empty] at hmem
  cases hmem

/-- When there is no frame to take, none is got. -/
theorem Exhausted.allocated {r : Except PagingError Frame} (hex : k.Exhausted)
    (hall : Allocated c pins k r k') (h : k.Sound pins none) : r = .error .outOfMemory := by
  have hnone : ∀ {f q w e r}, ¬ Chosen pins k f q w e r := by
    intro f q w e r hchosen
    obtain ⟨i, hi, -, hpin⟩ := hchosen.victim h
    cases hpin.symm.trans (hex.2 f i hi)
  cases hall with
  | pooled htake => cases htake.symm.trans (FrameTable.takeOne_eq_none.2 hex.1)
  | noVictim => rfl
  | taken hchosen => exact absurd hchosen hnone
  | refused hchosen => exact absurd hchosen hnone

section Faults

variable [BackingStore σ]

theorem Chosen.writesOut {r : Residency} {owner : SlotOwner}
    {result : Except StoreError SlotIndex} {swap : SwapSpace σ}
    (hchosen : Chosen pins k f pid v e r) (h : k.Sound pins none)
    (hswap : SwapSpace.SwappedOut (.actual σ) owner (k.memory.frameBytes f) k.swap result swap) :
    k.WritesOut f (result.map fun _ => ()) swap.store := by
  refine ⟨FrameTable.takeOne_eq_none.1 hchosen.empty, hchosen.victim h, ?_⟩
  cases hswap with
  | done hstore => exact hstore
  | failed hstore _ => exact hstore

theorem Allocated.warranted {error : PagingError}
    (hall : Allocated (.actual σ) pins k (.error error) k') (h : k.Sound pins none)
    (hsize : k.config.physPages < limit32) : k.Warranted v write e error := by
  cases hall with
  | noVictim hempty hselect _ => exact h.exhausted hsize hempty hselect
  | refused hchosen hvac =>
    cases hvac with
    | refused _ hswap => exact .inl ⟨_, _, hchosen.writesOut h hswap⟩

/-- With the frame the store has changed only by the write of a victim. -/
theorem Allocated.swap (hall : Allocated (.actual σ) pins k (.ok f) k') (h : k.Sound pins none) :
    k'.swap.pageSize = k.swap.pageSize ∧
      (k'.swap.store = k.swap.store ∨ ∃ f, k.WritesOut f (.ok ()) k'.swap.store) := by
  cases hall with
  | pooled => exact ⟨rfl, .inl rfl⟩
  | taken hchosen hvac =>
    cases hvac with
    | dropped => exact ⟨rfl, .inl rfl⟩
    | saved _ hswap =>
      have hwrites := hchosen.writesOut h hswap
      cases hswap with
      | done => exact ⟨rfl, .inr ⟨_, hwrites⟩⟩

/-! ## Finding a frame for a page -/

/-- A section in memory delivers the pages of its processes: only the store fails to. -/
theorem Fetched.refused {error : PagingError} {stackPages : Nat}
    (hfetch : Fetched (.actual σ) p e k (.error error) k')
    (hlaid : p.outline.Laid k.images k.memory.pageSize stackPages)
    (hmem : ∀ s ∈ k.images, s.pageSize = k.memory.pageSize → s.InMemory) :
    ∃ s failure store, error = .swap failure ∧ e.state = .swapped s ∧
      (BackingStore.read (k.swap.offset s) k.swap.pageSize).run.run k.swap.store =
        .ok (.error failure, store) := by
  generalize hresult : Except.error error = result at hfetch
  cases hfetch with
  | zero => cases hresult
  | swapped hs hswap =>
    cases hswap with
    | done => cases hresult
    | failed hstore =>
      cases hresult
      exact ⟨_, _, _, rfl, hs, hstore.1⟩
  | @image exe j sectionId s r s' hs hexe hposition hid hsection hload =>
    obtain ⟨exe', flags, hexe', -, -, hfind, hbehind⟩ := executable_eq hlaid
    cases hexe.symm.trans hexe'
    have hin : e.vpn < flags.length := by
      refine Nat.lt_of_not_le fun hle => ?_
      cases hposition.symm.trans (hbehind _ hle)
    obtain ⟨j', sectionId', s₁, hposition', -, hid', hsection', -, hsize, hcovers⟩ :=
      hfind e.vpn flags[e.vpn] (List.getElem?_eq_getElem hin)
    cases hposition.symm.trans hposition'
    cases hid.symm.trans hid'
    cases hsection.symm.trans hsection'
    have hthere : s.unloaded ∈ k.images :=
      List.mem_map.2 ⟨s, List.mem_of_getElem? hsection, rfl⟩
    obtain ⟨hdata, hbytes, hlarge⟩ := hmem _ hthere hsize
    have hheld : s.InMemory := ⟨hdata, hbytes, hlarge⟩
    obtain ⟨page, hpage⟩ := (hheld.delivers (V := fun _ => True) hcovers).of_run (hsize ▸ hload)
    rw [hpage] at hresult
    cases hresult

theorem PagedIn.accounted {r : Except PagingError Mapping}
    (hin : PagedIn (.actual σ) pins pid p v e k r k') (h : k.Sound pins none)
    (hsize : k.config.physPages < limit32)
    (hmem : ∀ s ∈ k.images, s.pageSize = k.memory.pageSize → s.InMemory)
    (hp : k.residency.outline? pid = some p.outline) : k.Accounted v write e r := by
  have h₁ : k.faulting.Sound pins none := h.faulting
  have hstarved : ∀ {result k₁}, Allocated (.actual σ) pins k.faulting result k₁ → k.Exhausted →
      result = .error .outOfMemory := by
    intro result k₁ hall hex
    have hex₁ : k.faulting.Exhausted := hex
    exact hex₁.allocated hall h₁
  cases hin with
  | starved hall =>
    refine ⟨fun hr => ?_, fun hex _ => ?_⟩
    · cases hr
      exact hall.warranted h₁ hsize
    · cases hstarved hall hex
      rfl
  | loaded hall _ _ =>
    refine ⟨fun hr => ?_, fun hex _ => ?_⟩
    · cases hr
    · cases hstarved hall hex
  | failed hall hfetch =>
    refine ⟨fun hr => ?_, fun hex _ => absurd (hstarved hall hex) (by simp)⟩
    cases hr
    obtain ⟨hsound, -, -, hkeeps, -⟩ := hall.gained h₁
    obtain ⟨hslots, hstore⟩ := hall.swap h₁
    have hlaid := hsound.laid ((hkeeps.outline pid).trans hp)
    obtain ⟨s, failure, store, rfl, hs, hread⟩ := hfetch.refused hlaid (by
      rw [hkeeps.images, hkeeps.pageSize]
      exact hmem)
    rw [SwapSpace.offset, hslots] at hread
    exact .inr ⟨s, _, store, hs, hstore, hread⟩

/-- Page `v` of the address space of process `pid`, which has not exited, has entry `e`. -/
structure InRange (k : Kernel σ) (pid : Pid) (v : Vpn) (e : PageEntry) : Prop where
  live : ∃ p, k.residency.process? pid = some p ∧ p.exited = false ∧ v < p.numPages
  page : k.residency.page? pid v = some e

theorem Resolved.accounted {r : Except PagingError Mapping}
    (hres : Resolved (.actual σ) pins pid v k r k') (h : k.Sound pins none)
    (hsize : k.config.physPages < limit32)
    (hmem : ∀ s ∈ k.images, s.pageSize = k.memory.pageSize → s.InMemory)
    (hin : k.InRange pid v e) : k.Accounted v write e r := by
  obtain ⟨p, hp, hlive, -⟩ := hin.live
  cases hres with
  | exited hdead => cases hlive.symm.trans (hdead p hp)
  | @outside p' hp' _ hv =>
    cases hp.symm.trans hp'
    obtain ⟨p', hp', -, hentry⟩ := Residency.page?_eq_some_iff.1 hin.page
    cases hp.symm.trans hp'
    cases hv.symm.trans hentry
  | there he hs =>
    cases hin.page.symm.trans he
    exact .of_resident hs (by simp)
  | faulted hp' _ he _ hpaged =>
    cases hin.page.symm.trans he
    exact hpaged.accounted h hsize hmem (Residency.outline?_of_process hp')

end Faults

/-! ## Instructions -/

/-- What the accesses of a kernel need to be accounted for. -/
structure Equipped [BackingStore σ] (V : Violation → Prop) (pins : Frame → Nat) (k : Kernel σ) :
    Prop where
  store : (fullReads σ).Holds V
  sound : k.Sound pins none
  tlb : 0 < k.tlb.slots.length
  inMemory : ∀ s ∈ k.images, s.pageSize = k.memory.pageSize → s.InMemory
  frames_lt : k.config.physPages < limit32
  pageSize_lt : k.memory.pageSize < limit32

section Accesses

variable [BackingStore σ]

theorem Equipped.tolerated (h : Equipped V pins k) : Tolerated (.actual σ) V k :=
  ⟨Conduct.actual_holds h.store, fun s hs hsize => (h.inMemory s hs hsize).loads,
    .inl h.pageSize_lt⟩

/-- A write is refused for the flag that the page has had all along. -/
theorem Translated.warranted {error : PagingError} (hkeeps : k.Keeps k₁)
    (htr : Translated pid vaddr write k₁ (.error error) k') (h₁ : k₁.Sound pins none)
    (he : k.residency.page? pid (pageOf k.memory.pageSize vaddr) = some e) :
    k.Warranted (pageOf k.memory.pageSize vaddr) write e error := by
  cases htr with
  | refused hslot hv hvpn ho hwrite hro =>
    obtain ⟨e', he', -, hflag, -⟩ := h₁.tlb.backs (List.mem_of_getElem? hslot) hv ho
    rw [hvpn, hkeeps.pageSize] at he'
    rw [hkeeps.pageSize]
    exact ⟨rfl, hwrite, (hkeeps.readOnly he he').symm.trans (hflag.symm.trans hro)⟩

/-- The second try, after the miss has been served, may only be refused. -/
theorem Sought.accounted {r : Except PagingError Nat}
    (hsought : Sought (.actual σ) pins pid vaddr write k r k') (hk : Equipped V pins k)
    (hin : k.InRange pid (pageOf k.memory.pageSize vaddr) e) :
    k.Accounted (pageOf k.memory.pageSize vaddr) write e r := by
  have h := hk.sound
  obtain ⟨p, hp, hlive, hlt⟩ := hin.live
  cases hsought with
  | exited hdead => cases hlive.symm.trans (hdead p hp)
  | outside hp' _ hout =>
    cases hp.symm.trans hp'
    exact absurd hlt (Nat.not_lt.2 hout)
  | unserved hserved =>
    cases hserved with
    | failed hres => exact (hres.accounted h hk.frames_lt hk.inMemory hin).error
  | first htr =>
    obtain ⟨e', f, he', hs⟩ := htr.resident h (by cases r <;> nofun)
    cases hin.page.symm.trans he'
    refine .of_resident hs ?_
    rintro error rfl
    exact htr.warranted .refl h hin.page
  | second hserved htr =>
    have hstays := hserved.stays h
    cases hserved with
    | served hres _ =>
      have hfound : k.Accounted (pageOf k.memory.pageSize vaddr) write e (.ok _) :=
        hres.accounted h hk.frames_lt hk.inMemory hin
      refine hfound.next ?_
      rintro error rfl
      exact htr.warranted hstays.keeps hstays.sound hin.page

/-- An instruction does what it does once it has reached its address, or fails for a reason. -/
theorem ends_instruction {α : Type} {act : Nat → KernelM σ α} (hk : Equipped V pins k)
    (hin : k.InRange pid (pageOf k.memory.pageSize vaddr) e)
    (hact : ∀ address k', Located pins pid vaddr write address k k' →
      Ends V (act address).run k' fun r _ => ∃ a, r = .ok a) :
    Ends V (userAddress pid vaddr write >>= act).run k fun r _ =>
      k.Accounted (pageOf k.memory.pageSize vaddr) write e r := by
  rw [ends_bind]
  refine ends_userAddress_sought hk.tolerated hk.sound hk.tlb fun r k' hsought => ?_
  have haccounted := hsought.accounted hk hin
  cases r with
  | error error => exact haccounted.error
  | ok address =>
    refine (hact address k' (hsought.located hk.sound)).imp ?_
    rintro _ _ ⟨a, rfl⟩
    exact haccounted.ok

theorem Copied.accounted {α : Type} {r : Except PagingError α}
    {R : Frame → PhysicalMemory → Except PagingError α → PhysicalMemory → Prop}
    (hcopied : Copied (.actual σ) pins pid v write R k r k') (hk : Equipped V pins k)
    (hin : k.InRange pid v e) (hR : ∀ {f mem r mem'}, R f mem r mem' → ∃ a, r = .ok a) :
    k.Accounted v write e r := by
  cases hcopied with
  | failed hres => exact (hres.accounted hk.sound hk.frames_lt hk.inMemory hin).error
  | refused hres hwrite hro =>
    have hfound : k.Accounted v write e (.ok _) := hres.accounted hk.sound hk.frames_lt hk.inMemory hin
    obtain ⟨⟨-, hkeeps⟩, e', f, he', -, rfl⟩ := hres.ready hk.sound
    refine hfound.next fun _ hr => ?_
    cases hr
    exact ⟨rfl, hwrite, (hkeeps.readOnly hin.page he').symm.trans hro⟩
  | moved hres _ _ _ hmoved =>
    obtain ⟨a, rfl⟩ := hR hmoved
    exact (hres.accounted hk.sound hk.frames_lt hk.inMemory hin).ok

end Accesses

end Kernel

/-! ## Accesses to a page -/

/-- An access of a process to one page. -/
inductive PageAccess where
  | loadByte (vaddr : Nat)
  | storeByte (vaddr : Nat) (b : UInt8)
  | loadWord (vaddr : Nat)
  | storeWord (vaddr w : Nat)
  /-- Copies a chunk in. -/
  | copyIn (chunk : Kernel.Chunk)
  /-- Copies a chunk out, with its bytes in front of others. -/
  | copyOut (chunk : Kernel.Chunk) (data : Bytes)

namespace PageAccess

def writes : PageAccess → Bool
  | loadByte _ | loadWord _ | copyIn _ => false
  | storeByte _ _ | storeWord _ _ | copyOut _ _ => true

def page (pageSize : Nat) : PageAccess → Vpn
  | loadByte vaddr | storeByte vaddr _ | loadWord vaddr | storeWord vaddr _ => pageOf pageSize vaddr
  | copyIn chunk | copyOut chunk _ => chunk.vpn

/-- Words start at a multiple of their size, chunks stay inside their page. -/
def Aligned (pageSize : Nat) : PageAccess → Prop
  | loadByte _ | storeByte _ _ => True
  | loadWord vaddr | storeWord vaddr _ => vaddr % Bytes.wordSize = 0
  | copyIn chunk | copyOut chunk _ => chunk.offset + chunk.amount ≤ pageSize

end PageAccess

namespace Kernel

section Accesses

variable {σ : Type} {V : Violation → Prop} {pins : Frame → Nat} {k : Kernel σ} {pid : Pid} {v : Vpn}
  {e : PageEntry} {write : Bool}
variable [BackingStore σ] {access : PageAccess}

/-- Carries an access out. -/
def carryOut (pid : Pid) : PageAccess → KernelM σ Unit
  | .loadByte vaddr => (fun _ => ()) <$> loadByte pid vaddr
  | .storeByte vaddr b => storeByte pid vaddr b
  | .loadWord vaddr => (fun _ => ()) <$> loadWord pid vaddr
  | .storeWord vaddr w => storeWord pid vaddr w
  | .copyIn chunk => (fun _ => ()) <$>
    copyChunk pid false chunk fun address => reading (·.read address chunk.amount)
  | .copyOut chunk data =>
    copyChunk pid true chunk fun address => writing (·.write address (data.take chunk.amount))

theorem Accounted.map {α β : Type} {r : Except PagingError α} {g : α → β}
    (h : k.Accounted v write e r) : k.Accounted v write e (r.map g) := by
  cases r with
  | error error => exact h.error
  | ok a => exact h.ok

/-- An access is answered, and its answer is accounted for. -/
theorem ends_carryOut (hk : Equipped V pins k)
    (hin : k.InRange pid (access.page k.memory.pageSize) e)
    (haligned : access.Aligned k.memory.pageSize) (hwords : Bytes.wordSize ∣ k.memory.pageSize)
    (hpin : ∀ f, e.state = .resident f → pins f + 1 < limit32 ∨ V .overflow) :
    Ends V (carryOut pid access).run k fun r _ =>
      k.Accounted (access.page k.memory.pageSize) access.writes e r := by
  have hpos := hk.sound.memory.pageSize_pos
  have hpin' : ∀ {chunk : Chunk}, k.InRange pid chunk.vpn e → ∀ {e₁ f},
      k.residency.page? pid chunk.vpn = some e₁ → e₁.state = .resident f →
        pins f + 1 < limit32 ∨ V .overflow := by
    intro chunk hin e₁ f he₁ hs₁
    cases hin.page.symm.trans he₁
    exact hpin f hs₁
  cases access with
  | loadByte vaddr =>
    refine ends_map.2 ((ends_instruction hk hin fun address k' hloc => ?_).imp fun _ _ h => h.map)
    obtain ⟨b, -, hread⟩ :=
      PhysicalMemory.readByte_eq hloc.sound.memory (hloc.place_le (byte_fits hpos))
    exact (ends_reading hread).2 ⟨b, rfl⟩
  | storeByte vaddr b =>
    refine ends_instruction hk hin fun address k' hloc => ?_
    have hwrite : (k'.memory.writeByte address b).run = _ :=
      PhysicalMemory.write_eq hloc.sound.memory (hloc.place_le (byte_fits hpos))
    exact (ends_writing hwrite).2 ⟨(), rfl⟩
  | loadWord vaddr =>
    refine ends_map.2 (Ends.imp ?_ fun _ _ h => Accounted.map h)
    have hword : vaddr % Bytes.wordSize = 0 := haligned
    rw [loadWord, ends_bind, checkAligned, if_neg (Classical.not_not.2 hword)]
    refine ends_instruction hk hin fun address k' hloc => ?_
    have hread := PhysicalMemory.readWord_eq hloc.sound.memory
      (hloc.place_le (word_fits hpos hwords hword))
    exact (ends_reading hread).2 ⟨_, rfl⟩
  | storeWord vaddr w =>
    have hword : vaddr % Bytes.wordSize = 0 := haligned
    rw [carryOut, storeWord, ends_bind, checkAligned, if_neg (Classical.not_not.2 hword)]
    refine ends_instruction hk hin fun address k' hloc => ?_
    have hwrite : (k'.memory.writeWord address w).run = _ :=
      PhysicalMemory.write_eq hloc.sound.memory (hloc.place_le (word_fits hpos hwords hword))
    exact (ends_writing hwrite).2 ⟨(), rfl⟩
  | copyIn chunk =>
    refine ends_map.2 (Ends.imp ?_ fun _ _ h => Accounted.map h)
    refine ends_copyChunk hk.tolerated hk.sound (hpin' hin) (moves_read haligned) ?_
    exact fun _ _ hcopied => hcopied.accounted hk hin fun hread => ⟨_, hread.2⟩
  | copyOut chunk data =>
    have hshort : (data.take chunk.amount).length ≤ chunk.amount := List.length_take_le _ _
    refine ends_copyChunk hk.tolerated hk.sound (hpin' hin) (moves_write haligned hshort) ?_
    exact fun _ _ hcopied => hcopied.accounted hk hin fun hwritten => ⟨(), hwritten.2⟩

end Accesses

end Kernel

end DemandPaging
