/-
  A kernel makes progress.

  The accesses of a process to its memory fail for the reasons that `AccessErrors` gives, in every
  kernel that a fresh one can become.  If no frame is pinned and the store does not fail, there
  are none: what has been written to swap can be read from there (`Recoverable`), so that every
  access is carried out, on one frame as on many.

  * `BackingStore.Reliable`: a store that does not fail;
  * `Onward.access_progresses`: the answers to accesses.
-/
import DemandPaging.Proofs.AccessErrors
import DemandPaging.Proofs.Operated

namespace DemandPaging

/-! ## Stores that do not fail -/

/-- A store that is `fine` stays so, and does not shrink.  It takes what ends within `room`, and has
    `size` bytes that it delivers. -/
structure BackingStore.Reliable {σ : Type} [BackingStore σ] (fine : σ → Prop) (size : σ → Nat)
    (room : Nat) : Prop where
  read : ∀ {s s' : σ} {offset len : Nat} {r : Except StoreError Bytes}, fine s →
    (BackingStore.read offset len).run.run s = .ok (r, s') →
      fine s' ∧ size s ≤ size s' ∧ (offset + len ≤ size s → ∃ bytes, r = .ok bytes)
  write : ∀ {s s' : σ} {offset : Nat} {src : Bytes} {r : Except StoreError Unit}, fine s →
    (BackingStore.write offset src).run.run s = .ok (r, s') →
      fine s' ∧ size s ≤ size s' ∧ (offset + src.length ≤ room → r = .ok ()) ∧
        (r = .ok () → offset + src.length ≤ size s')

/-- The store never fails, within `room`, to take what it is given and to deliver what it has
    taken. -/
def BackingStore.Unfailing {σ : Type} [BackingStore σ] (room : Nat) (store : σ) : Prop :=
  ∃ (fine : σ → Prop) (size : σ → Nat), BackingStore.Reliable fine size room ∧ fine store

/-- A store in memory that is told to fail at no call, and may grow without bounds. -/
def MemoryStore.Fine (store : MemoryStore) : Prop :=
  store.failingReads = [] ∧ store.failingWrites = [] ∧ store.capacity = none

theorem MemoryStore.reliable {room : Nat} :
    BackingStore.Reliable MemoryStore.Fine (fun store => store.bytes.size) room where
  read := by
    intro s s' offset len r hfine hrun
    have hkept : ∀ {reads}, MemoryStore.Fine { s with reads } := hfine
    have hlisted : s.failingReads.contains s.reads = false := by rw [hfine.1]; rfl
    have hends : Ends (fun _ => True) (MemoryStore.read offset len).run s fun r s' =>
        s'.Fine ∧ s.bytes.size ≤ s'.bytes.size ∧
          (offset + len ≤ s.bytes.size → ∃ bytes, r = .ok bytes) := by
      unfold MemoryStore.read
      simp only [ends_bind, ends_get, ends_modify, ends_ite, ends_throw, ends_pure, hlisted,
        Bool.false_eq_true, false_imp_iff, not_false_eq_true, true_imp_iff, true_and]
      refine ⟨fun hshort => ⟨hkept, Nat.le_refl _, fun hin => ?_⟩,
        fun _ => ⟨hkept, Nat.le_refl _, fun _ => ⟨_, rfl⟩⟩⟩
      exact absurd hin (Nat.not_le.2 hshort)
    exact hends.of_run hrun
  write := by
    intro s s' offset src r hfine hrun
    have hkept : ∀ {bytes writes}, MemoryStore.Fine { s with bytes, writes } := hfine
    have hlisted : s.failingWrites.contains s.writes = false := by rw [hfine.2.1]; rfl
    have hroom : s.capacity.any (· < offset + src.length) = false := by rw [hfine.2.2]; rfl
    have hends : Ends (fun _ => True) (MemoryStore.write offset src).run s fun r s' =>
        s'.Fine ∧ s.bytes.size ≤ s'.bytes.size ∧ (offset + src.length ≤ room → r = .ok ()) ∧
          (r = .ok () → offset + src.length ≤ s'.bytes.size) := by
      unfold MemoryStore.write
      simp only [ends_bind, ends_get, ends_modify, ends_ite, ends_throw, hlisted, hroom,
        Bool.false_eq_true, false_imp_iff, not_false_eq_true, true_imp_iff, true_and]
      rw [Block.size_put]
      exact ⟨hkept, Nat.le_max_left _ _, fun _ => trivial, Nat.le_max_right _ _⟩
    exact hends.of_run hrun

namespace Kernel

variable {σ : Type} {V : Violation → Prop} {pins : Frame → Nat}
  {k k' k₁ : Kernel σ} {pid : Pid} {v : Vpn} {e : PageEntry} {f : Frame} {p : Process}
  {log : List Access} {fine : σ → Prop} {size : σ → Nat} {room : Nat}

/-! ## Pages in swap -/

/-- The store is fine, and the pages in swap lie within what it has. -/
structure Recoverable (fine : σ → Prop) (size : σ → Nat) (k : Kernel σ) : Prop where
  fine : fine k.swap.store
  within : ∀ {pid v s}, (k.residency.page? pid v).map (·.state) = some (.swapped s) →
    k.swap.offset s + k.swap.pageSize ≤ size k.swap.store

/-- As long as the store does not shrink, pages in swap may only become fewer. -/
theorem Recoverable.mono (h : Recoverable fine size k)
    (hpage : ∀ {pid v s}, (k'.residency.page? pid v).map (·.state) = some (.swapped s) →
      (k.residency.page? pid v).map (·.state) = some (.swapped s))
    (hsize : k'.swap.pageSize = k.swap.pageSize)
    (hstore : fine k'.swap.store ∧ size k.swap.store ≤ size k'.swap.store) :
    Recoverable fine size k' where
  fine := hstore.1
  within hstate := by
    rw [SwapSpace.offset, hsize]
    exact Nat.le_trans (h.within (hpage hstate)) hstore.2

/-- Nothing happens to the store, and no page moves. -/
theorem Recoverable.still (h : Recoverable fine size k)
    (hpage : ∀ pid v, (k'.residency.page? pid v).map (·.state) =
      (k.residency.page? pid v).map (·.state)) (hswap : k'.swap = k.swap) :
    Recoverable fine size k' :=
  h.mono (fun hstate => (hpage _ _).symm.trans hstate) (by rw [hswap])
    (by rw [hswap]; exact ⟨h.fine, Nat.le_refl _⟩)

/-- A fresh kernel has no page in swap. -/
theorem ends_boot_recoverable {pageSize : Nat} {config : Config} {store : σ}
    {sections : List Section} {picks : List Nat} (hfine : fine store) :
    Checked.Ends (fun _ => True) (boot pageSize config store sections picks)
      (Recoverable fine size) := by
  simp only [boot, Checked.ends_bind, Checked.ends_pure]
  refine Checked.ends_of_forall fun _ => Checked.ends_of_forall fun _ =>
    Checked.ends_of_forall fun _ => ⟨hfine, fun {q w s} hstate => ?_⟩
  cases q <;> cases hstate

/-- The page of an address in range has an entry. -/
theorem Sound.inRange (h : k.Sound pins none) (hp : k.residency.process? pid = some p)
    (hlive : p.exited = false) (hlt : v < p.numPages) :
    ∃ e, p.table.find? v = some e ∧ k.InRange pid v e := by
  have houtline := Residency.outline?_of_process hp
  have hsize : p.numPages = (p.table.entries.toList.map (·.readOnly)).length :=
    h.frames.sized houtline
  rw [List.length_map] at hsize
  obtain ⟨e, hentry⟩ : ∃ e, p.table.find? v = some e := by
    rw [PageTable.find?_eq]
    exact ⟨_, List.getElem?_eq_getElem (hsize ▸ hlt)⟩
  refine ⟨e, hentry, ⟨p, hp, hlive, hlt⟩, ?_⟩
  rw [Residency.page?_of_process hp (h.registered hp hlive), hentry]

section Runs

variable [BackingStore σ]

theorem Vacated.recoverable {r : Except PagingError Unit}
    (hvac : Vacated (.actual σ) f pid v e k r k') (hrel : BackingStore.Reliable fine size room)
    (h : Recoverable fine size k) (hk : k.Sound pins none)
    (he : k.residency.page? pid v = some e) (hs : e.state = .resident f) :
    Recoverable fine size k' := by
  have hf : f < k.memory.numFrames :=
    hk.numFrames ▸ FrameTable.lt_size (hk.frames.resident he hs).2
  have hlen : (k.memory.frameBytes f).length = k.swap.pageSize :=
    (PhysicalMemory.length_frameBytes hk.memory hf).trans hk.swapSize.symm
  cases hvac with
  | dropped =>
    refine h.mono (fun {q w s} hstate => ?_) rfl ⟨h.fine, Nat.le_refl _⟩
    rw [residency_withoutPage, Residency.page?_link he] at hstate
    split at hstate
    · cases hstate
    · exact hstate
  | saved _ hswap =>
    cases hswap with
    | done hstore =>
      obtain ⟨hfine, hgrows, -, hthere⟩ := hrel.write h.fine hstore
      refine ⟨hfine, fun {q w s} hstate => ?_⟩
      rw [residency_withoutPage, Residency.page?_link he] at hstate
      split at hstate
      · -- the page is where it has just been written to
        cases hstate
        have hin := hthere rfl
        rw [hlen] at hin
        exact hin
      · exact Nat.le_trans (h.within hstate) hgrows
  | refused _ hswap =>
    cases hswap with
    | failed hstore _ =>
      obtain ⟨hfine, hgrows, -⟩ := hrel.write h.fine hstore
      exact h.mono id rfl ⟨hfine, hgrows⟩

/-- Fetching a page keeps the store fine, and what is in it. -/
theorem Fetched.store {r : Except PagingError Bytes} (hfetch : Fetched (.actual σ) p e k r k')
    (hrel : BackingStore.Reliable fine size room) (hfine : fine k.swap.store) :
    fine k'.swap.store ∧ size k.swap.store ≤ size k'.swap.store := by
  have hread : ∀ {offset len result store},
      (BackingStore.read offset len).run.run k.swap.store = .ok (result, store) →
        fine store ∧ size k.swap.store ≤ size store :=
    fun hrun => ⟨(hrel.read hfine hrun).1, (hrel.read hfine hrun).2.1⟩
  cases hfetch with
  | swapped _ hswap =>
    cases hswap with
    | done hstore _ => exact hread hstore.1
    | failed hstore => exact hread hstore.1
  | image => exact ⟨hfine, Nat.le_refl _⟩
  | zero => exact ⟨hfine, Nat.le_refl _⟩

theorem Step.recoverable (hstep : Step (.actual σ) pins k k')
    (hrel : BackingStore.Reliable fine size room) (h : Recoverable fine size k) :
    Recoverable fine size k' := by
  cases hstep with
  | settled => exact h.still (fun _ _ => Residency.states_absorb) rfl
  | swept _ hswept => exact h.still (fun _ _ => hswept.cools.states) rfl
  | counted => exact h.still (fun _ _ => rfl) rfl
  | pooled => exact h.still (fun _ _ => congrArg _ Residency.page?_frames) rfl
  | vacated hk he hs _ _ hvac => exact hvac.recoverable hrel h hk he hs
  | loaded _ _ _ he _ hfetch _ =>
    have hstore := hfetch.store hrel h.fine
    obtain ⟨swap, sections, rfl, hsize, -⟩ := hfetch.rest
    refine h.mono (fun {q w s} hstate => ?_) hsize hstore
    have hpage := (congrArg (Option.map PageEntry.state)
      (Residency.page?_link he)).symm.trans hstate
    split at hpage
    · cases hpage
    · exact hpage
  | returned _ _ _ hfetch =>
    have hstore := hfetch.store hrel h.fine
    obtain ⟨swap, sections, rfl, hsize, -⟩ := hfetch.rest
    refine h.mono (fun hstate => ?_) hsize hstore
    exact (congrArg (Option.map PageEntry.state) Residency.page?_frames).symm.trans hstate
  | spawned _ hspawn =>
    cases hspawn with
    | refused => exact h
    | made =>
      refine h.mono (fun {q w s} hstate => ?_) rfl ⟨h.fine, Nat.le_refl _⟩
      obtain ⟨e, he, hs⟩ := Option.map_eq_some_iff.1 hstate
      rcases Residency.page?_addProcess he with hold | ⟨-, -, hnew⟩
      · exact Option.map_eq_some_iff.2 ⟨e, hold, hs⟩
      · cases (congrArg PageEntry.state hnew).symm.trans hs
  | exited _ hexit =>
    cases hexit with
    | missing | again => exact h
    | ended =>
      refine h.mono (fun {q w s} hstate => ?_) rfl ⟨h.fine, Nat.le_refl _⟩
      have hpage := (congrArg (Option.map PageEntry.state) Residency.page?_finish).symm.trans hstate
      split at hpage
      · cases hpage
      · exact hpage
  | forgotten _ hgone =>
    exact h.still (fun _ _ => congrArg _ (Residency.page?_dropProcess hgone)) rfl

theorem Operated.recoverable {op : Operation} {pins' : Frame → Nat}
    (hop : Operated (.actual σ) pins k op pins' k') (hrel : BackingStore.Reliable fine size room)
    (h : Recoverable fine size k) : Recoverable fine size k' := by
  have hcourse : ∀ {log k₁}, Course (.actual σ) pins k log k₁ → Recoverable fine size k₁ := by
    intro log k₁ hcourse
    exact hcourse.preserves h (fun _ _ hstep h => hstep.recoverable hrel h)
      (fun k k' _ _ _ _ hacc h => h.still hacc.states hacc.swap) fun _ _ h => ⟨h.fine, h.within⟩
  cases hop with
  | ran _ hran => exact hcourse hran
  | pinned _ hran he => exact (hcourse hran).still (fun _ _ => Residency.state_link he rfl) rfl
  | unpinned hun =>
    have hswap : k'.swap = k.swap := by cases hun <;> rfl
    exact h.still (fun _ _ => congrArg _ hun.page?) hswap

/-! ## Accesses -/

/-- A store that does not fail, in which there is room for one more slot, does not fail for a
    page either. -/
theorem Recoverable.not_failed {error : StoreError} (h : Recoverable fine size k)
    (hrel : BackingStore.Reliable fine size room) (hk : k.Sound pins none)
    (hroom : (k.swap.slots.size + 1) * k.swap.pageSize ≤ room)
    (he : k.residency.page? pid v = some e) : ¬ k.StoreFailed e error := by
  have hwrite : ∀ {f r store}, k.WritesOut f r store →
      r = .ok () ∧ fine store ∧ size k.swap.store ≤ size store := by
    rintro f r store ⟨-, ⟨i, hi, -⟩, hrun⟩
    obtain ⟨hfine, hgrows, hok, -⟩ := hrel.write h.fine hrun
    refine ⟨hok ?_, hfine, hgrows⟩
    have hf : f < k.memory.numFrames := hk.numFrames ▸ FrameTable.lt_size hi
    have hnext : k.swap.slots.next ≤ k.swap.slots.size := by
      rw [SlotTable.size, Row.size_eq]
      exact k.swap.slots.next_le_size
    rw [PhysicalMemory.length_frameBytes hk.memory hf, ← hk.swapSize, SwapSpace.offset,
      ← Nat.succ_mul]
    exact Nat.le_trans (Nat.mul_le_mul_right _ (Nat.succ_le_succ hnext)) hroom
  rintro (⟨f, store, hfailed⟩ | ⟨s, store, store', hs, hstore, hrun⟩)
  · cases (hwrite hfailed).1
  · have hsafe : fine store ∧ size k.swap.store ≤ size store := by
      rcases hstore with rfl | ⟨f, hwritten⟩
      · exact ⟨h.fine, Nat.le_refl _⟩
      · exact (hwrite hwritten).2
    have hin : k.swap.offset s + k.swap.pageSize ≤ size k.swap.store :=
      h.within (by rw [he, Option.map_some, hs])
    obtain ⟨bytes, hbytes⟩ := (hrel.read hsafe.1 hrun).2.2 (Nat.le_trans hin hsafe.2)
    cases hbytes

/-- On such a store, without pins, an access that may be made has no reason to fail. -/
theorem Recoverable.not_warranted {write : Bool} {error : PagingError}
    (h : Recoverable fine size k) (hrel : BackingStore.Reliable fine size room)
    (hk : k.Sound pins none) (hroom : (k.swap.slots.size + 1) * k.swap.pageSize ≤ room)
    (he : k.residency.page? pid v = some e) (hwritable : write = true → e.readOnly = false)
    (hfree : ∀ f i, k.residency.frames.info? f = some i → i.isPinned = false) :
    ¬ k.Warranted v write e error := by
  intro hreason
  cases error with
  | outOfMemory =>
    obtain ⟨i, hi⟩ := FrameTable.lt_size_iff.1 hk.frames.hand_lt
    cases (hfree _ i hi).symm.trans (hreason.2 _ i hi)
  | readOnly w =>
    obtain ⟨-, hwrite, hro⟩ := hreason
    cases (hwritable hwrite).symm.trans hro
  | swap error => exact h.not_failed hrel hk hroom he hreason
  | addressOutOfRange | unalignedAccess | memory | image | sectionMissing | fragmentedExecutable
  | processExited => exact hreason

/-- Whatever has become of a machine, its accesses can be accounted for. -/
theorem Onward.equipped {n : Nat} {config : Config} {store : σ} {images : List Section}
    {picks : List Nat} {k₀ : Kernel σ} (hstore : (fullReads σ).Holds V) (hn : n ≤ 31)
    (hframes : config.physPages < limit32) (hheld : ∀ s ∈ images, s.Held)
    (hboot : boot (2 ^ n) config store images picks = .ok k₀) (hrun : Onward k₀ k) :
    (∃ pins, Equipped V pins k) ∧ k.memory.pageSize = 2 ^ n := by
  obtain ⟨hsound₀, htlb₀⟩ := (Checked.ends_of_eq_ok hboot).1 ends_boot
  have hfresh := (Checked.ends_of_eq_ok hboot).1 ends_boot_fresh
  obtain ⟨pins, hsound, htlb, hsame⟩ := hrun.preserves Conduct.any_holds hsound₀ htlb₀
    (SameMachine.refl : k₀.SameMachine k₀) (fun hop hsame => hsame.trans hop.same)
    fun hsame => ⟨hsame.config, hsame.images, hsame.pageSize, hsame.tlbSize⟩
  have hsize := hsame.pageSize.trans hfresh.pageSize
  refine ⟨⟨pins, hstore, hsound, htlb, ?_, ?_, hsize ▸ two_pow_lt_limit32 hn⟩, hsize⟩
  · rw [hsame.images, hsame.pageSize]
    exact hfresh.inMemory hn hheld
  · rw [hsame.config, hfresh.config]
    exact hframes

/-- What a store that does not fail has taken can be read back, whatever has become of a machine. -/
theorem Onward.recoverable {pageSize : Nat} {config : Config} {store : σ} {images : List Section}
    {picks : List Nat} {k₀ : Kernel σ} (hstore : (fullReads σ).Holds V)
    (hrel : BackingStore.Reliable fine size room) (hfine : fine store)
    (hboot : boot pageSize config store images picks = .ok k₀) (hrun : Onward k₀ k) :
    Recoverable fine size k := by
  obtain ⟨hsound₀, htlb₀⟩ := (Checked.ends_of_eq_ok hboot).1 ends_boot
  have hrec₀ : Recoverable fine size k₀ :=
    (Checked.ends_of_eq_ok hboot).1 (ends_boot_recoverable hfine)
  obtain ⟨_, -, -, hrec⟩ := hrun.preserves (Conduct.actual_holds hstore.whenever) hsound₀ htlb₀
    hrec₀ (fun hop hrec => hop.recoverable hrel hrec) fun hrec => ⟨hrec.fine, hrec.within⟩
  exact hrec

/-- On a machine of fewer than 2^32 frames, an access to a page that is in no frame is refused for
    want of one exactly if there is none to take, and otherwise fails only for an error of the
    store, or because the page may not be written.  Without pins, and on a store that does not
    fail, every access is carried out that does not write to a read-only page. -/
theorem Onward.access_progresses {n : Nat} {config : Config} {store : σ} {images : List Section}
    {picks : List Nat} {k₀ : Kernel σ} {access : PageAccess} (hstore : (fullReads σ).Holds V)
    (hn : 2 ≤ n) (hn' : n ≤ 31) (hframes : config.physPages < limit32)
    (hheld : ∀ s ∈ images, s.Held)
    (hboot : boot (2 ^ n) config store images picks = .ok k₀) (hrun : Onward k₀ k)
    (hp : k.residency.process? pid = some p) (hlive : p.exited = false)
    (hpage : access.page (2 ^ n) < p.numPages) (haligned : access.Aligned (2 ^ n)) :
    ∃ e, p.table.find? (access.page (2 ^ n)) = some e ∧
      ((∀ f, e.state ≠ .resident f) → Ends V (carryOut pid access).run k fun r _ =>
        (r = .error .outOfMemory ↔ k.Exhausted) ∧ ∀ error, r = .error error →
          k.Warranted (access.page (2 ^ n)) access.writes e error) ∧
      ((access.writes = true → e.readOnly = false) →
        (∀ f i, k.residency.frames.info? f = some i → i.isPinned = false) →
        ∀ room, BackingStore.Unfailing room store → (k.swap.slots.size + 1) * 2 ^ n ≤ room →
          Ends V (carryOut pid access).run k fun r _ => r = .ok ()) := by
  obtain ⟨⟨pins, hk⟩, hsize⟩ := hrun.equipped hstore hn' hframes hheld hboot
  have hsound := hk.sound
  have hwords : Bytes.wordSize ∣ k.memory.pageSize := by
    rw [hsize]
    exact Nat.pow_dvd_pow 2 hn
  rw [← hsize] at hpage haligned ⊢
  obtain ⟨e, hentry, hin⟩ := hsound.inRange hp hlive hpage
  refine ⟨e, hentry, fun hs => ?_, fun hwritable hfree room hunfailing hroom => ?_⟩
  · refine (ends_carryOut hk hin haligned hwords fun f hf => absurd hf (hs f)).imp ?_
    intro r _ hdone
    exact ⟨⟨fun hr => hdone.warranted hr, fun hex => hdone.starved hex hs⟩,
      fun _ hr => hdone.warranted hr⟩
  · obtain ⟨fine, size, hrel, hfine⟩ := hunfailing
    have hrec := hrun.recoverable hstore hrel hfine hboot
    have hpin : ∀ f, e.state = .resident f → pins f + 1 < limit32 ∨ V .overflow := by
      intro f hf
      have hfree : decide (0 < pins f) = false := hfree f _ (hsound.frames.resident hin.page hf).2
      have hzero : pins f = 0 := Nat.eq_zero_of_not_pos (of_decide_eq_false hfree)
      exact .inl (hzero ▸ (by decide))
    refine (ends_carryOut hk hin haligned hwords hpin).imp fun r _ hdone => ?_
    cases r with
    | ok _ => rfl
    | error error =>
      rw [← hsound.swapSize] at hroom
      exact absurd (hdone.warranted rfl)
        (hrec.not_warranted hrel hsound hroom hin.page hwritable hfree)

/-! ### One frame -/

/-- A process has a stack of one page besides a page of this section. -/
def lonePage : Section where
  name := "data"
  firstVpn := 0
  readOnly := false
  pageSize := 4
  content := .data (.ofList [1, 2, 3])

theorem held_lonePage : ∀ s ∈ [lonePage], s.Held := by
  intro s hs
  obtain rfl := List.mem_singleton.1 hs
  exact ⟨⟨_, rfl⟩, by simp [lonePage, Section.bytes, limit63]⟩

/-- The first page of the process is in swap, no frame is free, and all of them are pinned, or
    none. -/
structure PageOut (k : Kernel MemoryStore) (pinned : Bool) (p : Process) (e : PageEntry) :
    Prop where
  process : k.residency.process? 1 = some p
  live : p.exited = false
  numPages : p.numPages = 2
  page : k.residency.page? 1 0 = some e
  swapped : e.state = .swapped 0
  writable : e.readOnly = false
  pool : k.residency.frames.pool.toList = []
  pins : ∀ f i, k.residency.frames.info? f = some i → i.isPinned = pinned

theorem PageOut.entry {k : Kernel MemoryStore} {pinned : Bool} {p : Process} {e : PageEntry}
    (h : PageOut k pinned p e) : p.table.find? 0 = some e := by
  obtain ⟨p', hp', -, hentry⟩ := Residency.page?_eq_some_iff.1 h.page
  cases h.process.symm.trans hp'
  exact hentry

/-- The same, read off the tables. -/
def showsPageOut (pinned : Bool) (k : Kernel MemoryStore) : Bool :=
  (k.residency.process? 1).any (fun p => !p.exited && p.numPages == 2) &&
  (k.residency.page? 1 0).any (fun e => e.state == .swapped 0 && !e.readOnly) &&
  k.residency.frames.pool.toList.isEmpty &&
  k.residency.frames.frames.toList.all (·.isPinned == pinned)

theorem exists_pageOut_of_shows {k : Kernel MemoryStore} {pinned : Bool}
    (h : showsPageOut pinned k = true) : ∃ p e, PageOut k pinned p e := by
  simp only [showsPageOut, Bool.and_eq_true, Option.any_eq_true, Bool.not_eq_true', beq_iff_eq,
    List.isEmpty_iff, List.all_eq_true] at h
  obtain ⟨⟨⟨⟨p, hp, hlive, hnum⟩, e, he, hs, hwritable⟩, hpool⟩, hpins⟩ := h
  refine ⟨p, e, hp, hlive, hnum, he, hs, hwritable, hpool, fun f i hi => ?_⟩
  rw [FrameTable.info?_eq] at hi
  exact hpins i (List.mem_of_getElem? hi)

/-- With both pages written to, the first one is out, and the other one can be pinned. -/
theorem exists_pageOut : ∃ k₀ k k₁ : Kernel MemoryStore,
    boot (2 ^ 2) { physPages := 1, tlbSize := 1, stackPages := 1 } {} [lonePage] [] = .ok k₀ ∧
      Onward k₀ k ∧ k.residency.frames.size = 1 ∧ k.tlb.slots.length = 1 ∧
        (∃ p e, PageOut k false p e) ∧
          (operate (.pin 1 1 false)).run.run k = .ok (.ok (), k₁) ∧ ∃ p e, PageOut k₁ true p e := by
  have hrun : (boot 4 { physPages := 1, tlbSize := 1, stackPages := 1 } ({} : MemoryStore)
      [lonePage] [] >>= fun k₀ =>
        (operate (.request (.spawn [0]))).run.run k₀ >>= fun r₁ =>
          (operate (.request (.process 1 (.storeByte 3 9)))).run.run r₁.2 >>= fun r₂ =>
            (operate (.request (.process 1 (.storeByte 4 8)))).run.run r₂.2 >>= fun r₃ =>
              (operate (.pin 1 1 false)).run.run r₃.2 >>= fun r₄ =>
                .ok (r₃.2.residency.frames.size, r₃.2.tlb.slots.length, showsPageOut false r₃.2,
                  r₄.1.toOption, showsPageOut true r₄.2)).toOption =
      some (1, 1, true, some (), true) := by
    decide +kernel
  obtain ⟨k₀, hboot, hrun⟩ := Checked.exists_of_toOption_bind hrun
  obtain ⟨⟨r₁, k₁⟩, hop₁, hrun⟩ := Checked.exists_of_toOption_bind hrun
  obtain ⟨⟨r₂, k₂⟩, hop₂, hrun⟩ := Checked.exists_of_toOption_bind hrun
  obtain ⟨⟨r₃, k₃⟩, hop₃, hrun⟩ := Checked.exists_of_toOption_bind hrun
  obtain ⟨⟨r₄, k₄⟩, hop₄, hrun⟩ := Checked.exists_of_toOption_bind hrun
  have hall := Option.some.inj hrun
  simp only [Prod.mk.injEq, toOption_eq_some] at hall
  obtain ⟨hframes, hslots, hout, rfl, hout'⟩ := hall
  have honward : Onward k₀ k₃ :=
    .tail (.tail (.tail .refl (.operated hop₁)) (.operated hop₂)) (.operated hop₃)
  exact ⟨k₀, k₃, k₄, hboot, honward, hframes, hslots, exists_pageOut_of_shows hout, hop₄,
    exists_pageOut_of_shows hout'⟩

/-- On one frame, with one slot of the TLB: a page comes back from swap, to which the other page
    goes instead, and cannot come back while the frame is pinned. -/
theorem Onward.access_progresses_on_one_frame : ∃ k k₁ k' k₁' : Kernel MemoryStore,
    k.residency.frames.size = 1 ∧ k.tlb.slots.length = 1 ∧
      (k.residency.page? 1 0).map (·.state) = some (.swapped 0) ∧
      (carryOut 1 (.loadWord 0)).run.run k = .ok (.ok (), k') ∧
      (operate (.pin 1 1 false)).run.run k = .ok (.ok (), k₁) ∧ k₁.Exhausted ∧
      (carryOut 1 (.loadWord 0)).run.run k₁ = .ok (.error .outOfMemory, k₁') := by
  obtain ⟨k₀, k, k₁, hboot, hrun, hframes, hslots, ⟨p, e, hout⟩, hpin, p₁, e₁, hout₁⟩ :=
    exists_pageOut
  have hreads : (fullReads MemoryStore).Holds fun _ => False := MemoryStore.isArray.fullReads
  have hunfailing : ∀ room, BackingStore.Unfailing room ({} : MemoryStore) :=
    fun room => ⟨_, _, MemoryStore.reliable, rfl, rfl, rfl⟩
  have hinside : ∀ {p : Process}, p.numPages = 2 →
      PageAccess.page (2 ^ 2) (.loadWord 0) < p.numPages := fun hnum => by rw [hnum]; decide
  obtain ⟨e', he', -, hback⟩ := Onward.access_progresses hreads (by decide) (by decide) (by decide)
    held_lonePage hboot hrun hout.process hout.live (hinside hout.numPages) rfl
  cases hout.entry.symm.trans he'
  obtain ⟨_, k', hload, rfl⟩ := ends_iff_eq_ok.1
    (hback (fun _ => hout.writable) hout.pins _ (hunfailing _) (Nat.le_refl _))
  obtain ⟨e₁', he₁', hstarved, -⟩ := Onward.access_progresses hreads (by decide) (by decide)
    (by decide) held_lonePage hboot (hrun.tail (.operated hpin)) hout₁.process hout₁.live
    (hinside hout₁.numPages) rfl
  cases hout₁.entry.symm.trans he₁'
  have hexhausted : k₁.Exhausted := ⟨hout₁.pool, hout₁.pins⟩
  obtain ⟨_, k₁', hload₁, hoom, -⟩ := ends_iff_eq_ok.1 (hstarved (by simp [hout₁.swapped]))
  obtain rfl := hoom.2 hexhausted
  have hstate : (k.residency.page? 1 0).map (·.state) = some (.swapped 0) := by
    rw [hout.page, Option.map_some, hout.swapped]
  exact ⟨k, k₁, k', k₁', hframes, hslots, hstate, hload, hpin, hexhausted, hload₁⟩

end Runs

end Kernel

end DemandPaging
