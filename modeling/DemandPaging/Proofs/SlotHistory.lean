/-
  What the slots of a swap area hold after any calls.

  A `CallHistory` is a run of calls on a swap area, with their answers.  From these alone
  `lastPage` tells the page that was last written to a slot since it was allocated.  The store
  holds it at the place of the slot, and reaches that far, whatever was done to other slots
  (`Stocked`): an allocated slot was free, slots lie apart, and a call that fails writes nothing.

  * `ends_perform`: the calls that keep the rules return, and what each leaves behind;
  * `CallHistory.faithful`: what is read back after any calls.
-/
import DemandPaging.Proofs.ArrayStore

namespace DemandPaging

namespace SwapSpace

/-! ## Calls -/

/-- A use of a swap area. -/
inductive Call where
  | allocate (owner : SlotOwner)
  | free (slot : SlotIndex)
  | freeAll (pid : Pid)
  | writePage (slot : SlotIndex) (page : Bytes)
  | readPage (slot : SlotIndex) (len : Nat)
  | swapOut (owner : SlotOwner) (page : Bytes)
  | swapIn (slot : SlotIndex) (len : Nat)
deriving DecidableEq, Repr

/-- The answer to a call that met no error. -/
inductive Reply where
  | done
  | slot (slot : SlotIndex)
  /-- The number of slots that were freed. -/
  | freed (count : Nat)
  | page (bytes : Bytes)
deriving DecidableEq, Repr

section Perform

variable {σ : Type} [BackingStore σ] {c : Conduct σ} {V : Violation → Prop} {swap : SwapSpace σ}
  {call : Call} {s : SlotIndex}

/-- Carries out a call. -/
def perform : Call → Action (SwapSpace σ) StoreError Reply
  | .allocate owner => do
    let (slot, swap) := (← get).allocate owner
    set swap
    return .slot slot
  | .free slot => do
    set (← (← get).free slot)
    return .done
  | .freeAll pid => do
    let (count, swap) := (← get).freeAll pid
    set swap
    return .freed count
  | .writePage slot page => (fun () => .done) <$> writePage slot page
  | .readPage slot len => .page <$> readPage slot len
  | .swapOut owner page => .slot <$> swapOut owner page
  | .swapIn slot len => .page <$> swapIn slot len

/-- The call keeps the rules of use: transfers are one page long, and a slot that is freed,
    written or read has an owner. -/
def Call.Allowed (swap : SwapSpace σ) : Call → Prop
  | .allocate _ | .freeAll _ => True
  | .free slot => (swap.slots.owner slot).isSome
  | .writePage slot page => page.length = swap.pageSize ∧ (swap.slots.owner slot).isSome
  | .readPage slot len | .swapIn slot len => len = swap.pageSize ∧ (swap.slots.owner slot).isSome
  | .swapOut _ page => page.length = swap.pageSize

/-- What a call that returns leaves behind. -/
inductive Performed (c : Conduct σ) (swap : SwapSpace σ) :
    Call → Except StoreError Reply → SwapSpace σ → Prop where
  | allocate {o} : Performed c swap (.allocate o) (.ok (.slot swap.slots.next))
      { swap with slots := (swap.slots.allocate o).2 }
  | free {s slots} (hslots : ∀ t, slots.owner t = if t = s then none else swap.slots.owner t) :
    Performed c swap (.free s) (.ok .done) { swap with slots }
  | freeAll {pid slots count}
    (hslots : ∀ t, slots.owner t = (swap.slots.owner t).filter fun o => o.pid ≠ pid) :
    Performed c swap (.freeAll pid) (.ok (.freed count)) { swap with slots }
  | writePage {s page r swap'} (hlen : page.length = swap.pageSize)
    (hwrite : TransferredOut c s page swap r swap') :
    Performed c swap (.writePage s page) (r.map fun () => .done) swap'
  | readPage {s r swap'} (hread : TransferredIn c s swap r swap') :
    Performed c swap (.readPage s swap.pageSize) (r.map .page) swap'
  | swapOut {o page r swap'} (hlen : page.length = swap.pageSize)
    (hout : SwappedOut c o page swap r swap') :
    Performed c swap (.swapOut o page) (r.map .slot) swap'
  | swapIn {s r swap'} (hin : SwappedIn c s swap r swap') :
    Performed c swap (.swapIn s swap.pageSize) (r.map .page) swap'

/-- A call that keeps the rules returns, unless the store stops. -/
theorem ends_perform (hc : c.Holds V) (hcall : call.Allowed swap) :
    Ends V (perform call).run swap (Performed c swap call) := by
  cases call with
  | allocate owner => exact .allocate
  | free slot =>
    obtain ⟨o, ho⟩ := Option.isSome_iff_exists.1 hcall
    obtain ⟨slots, hfree, hslots⟩ := SlotTable.deallocate_eq ho
    unfold perform free
    simp only [ends_bind, ends_get, ends_set, ends_lift, ends_pure, Checked.ends_bind]
    rw [hfree]
    exact .free hslots
  | freeAll pid => exact .freeAll fun t => SlotTable.owner_deallocateOwnedBy
  | writePage slot page =>
    unfold perform
    rw [ends_map]
    exact ends_writePage hc hcall.1 hcall.2 fun r swap' hwrite => .writePage hcall.1 hwrite
  | readPage slot len =>
    obtain ⟨rfl, hsome⟩ := hcall
    unfold perform
    rw [ends_map]
    exact ends_readPage hc hsome fun r swap' hread => .readPage hread
  | swapOut owner page =>
    unfold perform
    rw [ends_map]
    exact ends_swapOut hc hcall fun r swap' hout => .swapOut hcall hout
  | swapIn slot len =>
    obtain ⟨rfl, hsome⟩ := hcall
    unfold perform
    rw [ends_map]
    exact ends_swapIn hc hsome fun r swap' hin => .swapIn hin

/-- A call that breaks a rule stops. -/
theorem ends_allowed :
    Ends (fun _ => True) (perform call).run swap fun _ _ => call.Allowed swap := by
  by_cases hcall : call.Allowed swap
  · exact Checked.ends_of_forall fun _ => hcall
  · cases call with
    | allocate owner => exact absurd trivial hcall
    | freeAll pid => exact absurd trivial hcall
    | free slot =>
      unfold perform free SlotTable.deallocate
      simp only [ends_bind, ends_get, ends_set, ends_lift, ends_pure, Checked.ends_bind,
        Checked.ends_require, Checked.ends_pure]
      exact ⟨fun hsome => absurd hsome hcall, fun _ => trivial⟩
    | writePage slot page =>
      unfold perform writePage
      simp only [ends_map, ends_bind, ends_get, ends_lift, Checked.ends_require, decide_eq_true_eq]
      exact ⟨fun hlen => ⟨fun hsome => absurd ⟨hlen, hsome⟩ hcall, fun _ => trivial⟩,
        fun _ => trivial⟩
    | readPage slot len =>
      unfold perform readPage
      simp only [ends_map, ends_bind, ends_get, ends_lift, Checked.ends_require, decide_eq_true_eq]
      exact ⟨fun hlen => ⟨fun hsome => absurd ⟨hlen, hsome⟩ hcall, fun _ => trivial⟩,
        fun _ => trivial⟩
    | swapOut owner page =>
      unfold perform swapOut
      simp only [ends_map, ends_bind, ends_get, ends_lift, Checked.ends_require, decide_eq_true_eq]
      exact ⟨fun hlen => absurd hlen hcall, fun _ => trivial⟩
    | swapIn slot len =>
      unfold perform swapIn
      simp only [ends_map, ends_bind, ends_get, ends_lift, Checked.ends_require, decide_eq_true_eq]
      exact ⟨fun hlen => ⟨fun hsome => absurd ⟨hlen, hsome⟩ hcall, fun _ => trivial⟩,
        fun _ => trivial⟩

/-- What any call leaves behind that returns. -/
theorem performed_of_run {r : Except StoreError Reply} {swap' : SwapSpace σ} (hc : c.Holds V)
    (hrun : (perform call).run.run swap = .ok (r, swap')) : Performed c swap call r swap' :=
  (ends_perform hc.whenever (ends_allowed.of_run hrun)).of_run hrun

end Perform

/-! ## Pages in slots -/

/-- Calls with their answers, the last one first. -/
abbrev Calls := List (Call × Except StoreError Reply)

/-- The page that was last written to slot `s` since it was allocated, if one was. -/
def lastPage (s : SlotIndex) : Calls → Option Bytes
  | [] => none
  | (.allocate _, .ok (.slot t)) :: earlier => if t = s then none else lastPage s earlier
  | (.swapOut _ page, .ok (.slot t)) :: earlier => if t = s then some page else lastPage s earlier
  | (.writePage t page, .ok .done) :: earlier => if t = s then some page else lastPage s earlier
  | _ :: earlier => lastPage s earlier

/-- The store holds the pages that were written to the slots, at their places. -/
structure Stocked {σ : Type} (content : σ → Nat → UInt8) (size : σ → Nat)
    (last : SlotIndex → Option Bytes) (swap : SwapSpace σ) : Prop where
  there : ∀ s page, last s = some page → swap.offset s + swap.pageSize ≤ size swap.store
  bytes : ∀ s page, last s = some page → swap.slotBytes content s = page

section Stock

variable {σ : Type} {c : Conduct σ} {content : σ → Nat → UInt8} {size : σ → Nat}
  {readable : σ → Prop} {swap swap' : SwapSpace σ} {call : Call} {r : Except StoreError Reply}
  {calls : Calls}

/-- Pages stay where nothing is written. -/
theorem Stocked.kept {last last' : SlotIndex → Option Bytes} (h : Stocked content size last swap)
    (hpage : swap'.pageSize = swap.pageSize) (hcontent : content swap'.store = content swap.store)
    (hgrows : size swap.store ≤ size swap'.store)
    (hlast : ∀ s page, last' s = some page → last s = some page) :
    Stocked content size last' swap' where
  there s page hs := by
    rw [offset, hpage]
    exact Nat.le_trans (h.there s page (hlast s page hs)) hgrows
  bytes s page hs := by
    rw [slotBytes, offset, hpage, hcontent]
    exact h.bytes s page (hlast s page hs)

/-- A page that is written is there, and those in other slots stay. -/
theorem Stocked.written {last last' : SlotIndex → Option Bytes} {s : SlotIndex} {page : Bytes}
    (h : Stocked content size last swap) (hpage : swap'.pageSize = swap.pageSize)
    (hwrite : (growingConduct content size readable).writes swap.store (swap.offset s) page (.ok ())
      swap'.store) (hlen : page.length = swap.pageSize)
    (hlast : ∀ t, last' t = if s = t then some page else last t) :
    Stocked content size last' swap' := by
  obtain ⟨⟨hcontent, -⟩, hgrows, hreach⟩ := hwrite
  have hroom := hreach rfl
  rw [hlen] at hroom
  constructor
  · intro t old ht
    rw [offset, hpage]
    rw [hlast] at ht
    split at ht
    · next heq => exact heq ▸ hroom
    · exact Nat.le_trans (h.there t old ht) hgrows
  · intro t old ht
    rw [slotBytes, offset, hpage, hcontent rfl]
    rw [hlast] at ht
    split at ht
    · next heq =>
      cases ht
      rw [← heq, ← hlen]
      unfold offset
      rw [← hlen]
      exact bytesAt_writeAt_self
    · next hne =>
      rw [bytesAt_writeAt_apart (by rw [hlen]; exact Bytes.unit_apart (Ne.symm hne))]
      exact h.bytes t old ht

/-- One call keeps what the history says. -/
theorem Stocked.performed (h : Stocked content size (lastPage · calls) swap)
    (hcall : Performed (growingConduct content size readable) swap call r swap') :
    Stocked content size (lastPage · ((call, r) :: calls)) swap' := by
  cases hcall with
  | allocate =>
    refine h.kept rfl rfl (Nat.le_refl _) fun s page hs => ?_
    change (if _ then none else _) = _ at hs
    split at hs
    · cases hs
    · exact hs
  | free => exact h.kept rfl rfl (Nat.le_refl _) fun _ _ => id
  | freeAll => exact h.kept rfl rfl (Nat.le_refl _) fun _ _ => id
  | writePage hlen hwrite =>
    cases hwrite with
    | done hstore => exact h.written rfl hstore hlen fun _ => rfl
    | failed hstore => exact h.kept rfl (hstore.1.2 _ rfl) hstore.2.1 fun _ _ => id
  | readPage hread =>
    cases hread with
    | done hstore => exact h.kept rfl hstore.1.1 hstore.2.1 fun _ _ => id
    | failed hstore => exact h.kept rfl hstore.1.1 hstore.2.1 fun _ _ => id
  | swapOut hlen hout =>
    cases hout with
    | done hstore => exact h.written rfl hstore hlen fun _ => rfl
    | failed hstore => exact h.kept rfl (hstore.1.2 _ rfl) hstore.2.1 fun _ _ => id
  | swapIn hin =>
    cases hin with
    | done hstore => exact h.kept rfl hstore.1.1 hstore.2.1 fun _ _ => id
    | failed hstore => exact h.kept rfl hstore.1.1 hstore.2.1 fun _ _ => id

/-- What the store answers at the place of a slot is the page that was last written there. -/
theorem Stocked.read {last : SlotIndex → Option Bytes} {s : SlotIndex} {page : Bytes}
    {result : Except StoreError Bytes} {store : σ} (h : Stocked content size last swap)
    (hs : last s = some page)
    (hstore : (growingConduct content size readable).reads swap.store (swap.offset s) swap.pageSize
      result store) :
    (readable swap.store → result.map Reply.page = .ok (.page page)) ∧
      ∀ got, result.map Reply.page = .ok (.page got) → got = page := by
  cases result with
  | ok got =>
    obtain rfl := (hstore.1.2 _ rfl).trans (h.bytes s page hs)
    exact ⟨fun _ => rfl, fun _ hr => by cases hr; rfl⟩
  | error e =>
    refine ⟨fun hfine => ?_, fun got hr => nomatch hr⟩
    obtain ⟨got, hgot⟩ := hstore.2.2 hfine (h.there s page hs)
    cases hgot

/-- A read of a slot answers what was last written to it, unless the store fails the read. -/
theorem Stocked.answered {last : SlotIndex → Option Bytes} {s : SlotIndex} {page : Bytes}
    {len : Nat} (h : Stocked content size last swap) (hs : last s = some page)
    (hcall : Performed (growingConduct content size readable) swap call r swap')
    (hread : call = .readPage s len ∨ call = .swapIn s len) :
    (readable swap.store → r = .ok (.page page)) ∧ ∀ got, r = .ok (.page got) → got = page := by
  rcases hread with rfl | rfl
  · cases hcall with
    | readPage hread =>
      cases hread with
      | done hstore | failed hstore => exact h.read hs hstore
  · cases hcall with
    | swapIn hin =>
      cases hin with
      | done hstore | failed hstore => exact h.read hs hstore

theorem Performed.pageSize_eq (h : Performed c swap call r swap') :
    swap'.pageSize = swap.pageSize := by
  cases h with
  | allocate | free | freeAll => rfl
  | writePage _ h => cases h <;> rfl
  | readPage h => cases h <;> rfl
  | swapOut _ h => cases h <;> rfl
  | swapIn h => cases h <;> rfl

/-- A call that fails leaves the slots, their owners and the counts of transfers alone. -/
theorem Performed.failed {e : StoreError}
    (h : Performed (arrayConduct content) swap call (.error e) swap') :
    (∀ s, swap'.slots.owner s = swap.slots.owner s) ∧
      swap'.slots.inUse = swap.slots.inUse ∧ swap'.reads = swap.reads ∧
        swap'.writes = swap.writes ∧
          ∀ s, swap'.slotBytes content s = swap.slotBytes content s := by
  generalize hr : Except.error e = result at h
  cases h with
  | allocate | free | freeAll => cases hr
  | writePage _ hwrite =>
    cases hwrite with
    | done => cases hr
    | failed hstore =>
      exact ⟨fun _ => rfl, rfl, rfl, rfl, fun _ => by unfold slotBytes; rw [hstore.2 _ rfl]; rfl⟩
  | readPage hread =>
    cases hread with
    | done => cases hr
    | failed hstore =>
      exact ⟨fun _ => rfl, rfl, rfl, rfl, fun _ => by unfold slotBytes; rw [hstore.1]; rfl⟩
  | swapOut hlen hout =>
    cases hout with
    | done => cases hr
    | failed hstore hslots =>
      exact ⟨hslots, SlotTable.inUse_congr hslots, rfl, rfl,
        fun _ => by unfold slotBytes; rw [hstore.2 _ rfl]; rfl⟩
  | swapIn hin =>
    cases hin with
    | done => cases hr
    | failed hstore =>
      exact ⟨fun _ => rfl, rfl, rfl, rfl, fun _ => by unfold slotBytes; rw [hstore.1]; rfl⟩

end Stock

/-! ## Histories -/

section Histories

variable {σ : Type} [BackingStore σ] {content : σ → Nat → UInt8} {size : σ → Nat}
  {readable : σ → Prop} {V : Violation → Prop} {start swap : SwapSpace σ} {calls : Calls}

/-- Calls on a swap area, and what they have left. -/
inductive CallHistory (start : SwapSpace σ) : Calls → SwapSpace σ → Prop where
  | start : CallHistory start [] start
  | call {calls : Calls} {call : Call} {r swap swap'} (earlier : CallHistory start calls swap)
    (hrun : (perform call).run.run swap = .ok (r, swap')) :
    CallHistory start ((call, r) :: calls) swap'

theorem CallHistory.pageSize_eq (h : CallHistory start calls swap) :
    swap.pageSize = start.pageSize := by
  induction h with
  | start => rfl
  | call _ hrun ih => exact (performed_of_run Conduct.any_holds hrun).pageSize_eq.trans ih

theorem CallHistory.stocked (hstore : IsGrowing V content size readable)
    (h : CallHistory start calls swap) :
    Stocked content size (lastPage · calls) swap ∧ swap.pageSize = start.pageSize := by
  refine ⟨?_, h.pageSize_eq⟩
  induction h with
  | start => exact ⟨fun _ _ hnone => (nomatch hnone), fun _ _ hnone => (nomatch hnone)⟩
  | call _ hrun ih => exact ih.performed (performed_of_run hstore.grows hrun)

/-- What a swap area promises of the next call, when `last` tells the pages that were written. -/
structure Faithful (content : σ → Nat → UInt8) (readable : σ → Prop) (pageSize : Nat)
    (last : SlotIndex → Option Bytes) (swap : SwapSpace σ) : Prop where
  /-- A slot is read as it was last written, and stays, unless the store fails the read. -/
  reads : ∀ s o page, swap.slots.owner s = some o → last s = some page → readable swap.store →
    ∃ swap', (perform (.readPage s pageSize)).run.run swap = .ok (.ok (.page page), swap')
  swapsIn : ∀ s o page, swap.slots.owner s = some o → last s = some page → readable swap.store →
    ∃ swap', (perform (.swapIn s pageSize)).run.run swap = .ok (.ok (.page page), swap')
  /-- Whatever is delivered is the page last written. -/
  delivers : ∀ s page call len got swap', last s = some page →
    call = .readPage s len ∨ call = .swapIn s len →
    (perform call).run.run swap = .ok (.ok (.page got), swap') → got = page
  /-- A page that is swapped in gives up its slot, and no other. -/
  frees : ∀ s len got swap', (perform (.swapIn s len)).run.run swap = .ok (.ok got, swap') →
    ∀ t, swap'.slots.owner t = if t = s then none else swap.slots.owner t
  /-- A transfer that fails changes nothing. -/
  fails : ∀ call e swap', (perform call).run.run swap = .ok (.error e, swap') →
    (∀ s, swap'.slots.owner s = swap.slots.owner s) ∧
      swap'.slots.inUse = swap.slots.inUse ∧ swap'.reads = swap.reads ∧
        swap'.writes = swap.writes ∧
          ∀ s o, swap.slots.owner s = some o → swap'.slotBytes content s = swap.slotBytes content s

/-- After any calls on a swap area whose store is an array, a slot that is read back is what was
    last written to it. -/
theorem CallHistory.faithful (hstore : IsGrowing (fun _ => False) content size readable)
    (h : CallHistory start calls swap) :
    Faithful content readable start.pageSize (lastPage · calls) swap := by
  obtain ⟨hstocked, hpage⟩ := h.stocked hstore
  rw [← hpage]
  have harray := hstore.toIsArray.holds
  have hgrows := hstore.grows
  have hread : ∀ s o page call, swap.slots.owner s = some o → lastPage s calls = some page →
      readable swap.store → call = .readPage s swap.pageSize ∨ call = .swapIn s swap.pageSize →
        ∃ swap', (perform call).run.run swap = .ok (.ok (.page page), swap') := by
    intro s o page call ho hs hfine hcall
    have hallowed : call.Allowed swap := by
      rcases hcall with rfl | rfl
      all_goals exact ⟨rfl, by rw [ho]; rfl⟩
    obtain ⟨r, swap', hrun, hdone⟩ := ends_iff_eq_ok.1 (ends_perform hgrows hallowed)
    rw [(hstocked.answered hs hdone hcall).1 hfine] at hrun
    exact ⟨swap', hrun⟩
  exact {
    reads := fun s o page ho hs hfine => hread s o page _ ho hs hfine (.inl rfl)
    swapsIn := fun s o page ho hs hfine => hread s o page _ ho hs hfine (.inr rfl)
    delivers := fun s page call len got swap' hs hcall hrun =>
      (hstocked.answered hs (performed_of_run hgrows hrun) hcall).2 got rfl
    frees := by
      intro s len got swap' hrun
      have hdone := performed_of_run harray hrun
      generalize hr : Except.ok got = r at hdone
      cases hdone with
      | swapIn hin =>
        cases hin with
        | done _ hslots => exact hslots
        | failed => cases hr
    fails := fun call e swap' hrun => by
      obtain ⟨howner, hinUse, hreads, hwrites, hbytes⟩ := (performed_of_run harray hrun).failed
      exact ⟨howner, hinUse, hreads, hwrites, fun s _ _ => hbytes s⟩ }

/-- Makes calls, on top of those that `log` tells of. -/
def performAll : List Call → Calls → StateT (SwapSpace σ) Checked Calls
  | [], log => return log
  | call :: rest, log => do
    let r ← (perform call).run
    performAll rest ((call, r) :: log)

/-- Calls that all return are a history. -/
theorem CallHistory.ends_performAll {requests : List Call}
    (h : CallHistory start calls swap) :
    Ends (fun _ => True) (performAll requests calls) swap (CallHistory start) := by
  induction requests generalizing calls swap with
  | nil => exact h
  | cons call rest ih => exact step_ends_bind.2 (ends_self.imp fun r swap' hrun => ih (h.call hrun))

/-- Slot 0 is freed, given to another page and written twice, once in vain, while slot 1 keeps a
    page; slot 0 is read as it was last written. -/
theorem CallHistory.faithful_of_reuse : ∃ (calls : Calls) (start swap swap' : SwapSpace MemoryStore),
    start.pageSize = 4 ∧ CallHistory start calls swap ∧
      swap.slots.owner 0 = some ⟨2, 0⟩ ∧ lastPage 0 calls = some [9, 9, 9, 9] ∧
        lastPage 1 calls = some [5, 6, 7, 8] ∧
          (perform (.readPage 0 4)).run.run swap = .ok (.ok (.page [9, 9, 9, 9]), swap') := by
  let start : SwapSpace MemoryStore := { pageSize := 4, store := { failingWrites := [3] } }
  have hrun : ((performAll [.swapOut ⟨1, 0⟩ [1, 2, 3, 4], .swapOut ⟨1, 1⟩ [5, 6, 7, 8], .free 0,
      .allocate ⟨2, 0⟩, .writePage 0 [9, 9, 9, 9], .writePage 0 [7, 7, 7, 7]] []).run start >>=
        fun r => .ok (r.2.slots.owner 0, lastPage 0 r.1, lastPage 1 r.1,
          r.2.store.failingReads.contains r.2.store.reads)).toOption =
      some (some ⟨2, 0⟩, some [9, 9, 9, 9], some [5, 6, 7, 8], false) := by
    decide +kernel
  obtain ⟨⟨calls, swap⟩, hcalls, hshown⟩ := Checked.exists_of_toOption_bind hrun
  simp only [Except.toOption, Option.some.injEq, Prod.mk.injEq] at hshown
  obtain ⟨howner, hfirst, hsecond, hfine⟩ := hshown
  have history : CallHistory start calls swap := CallHistory.start.ends_performAll.of_run hcalls
  have hfaithful := CallHistory.faithful MemoryStore.isGrowing history
  obtain ⟨swap', hread⟩ := hfaithful.reads 0 _ _ howner hfirst hfine
  exact ⟨calls, start, swap, swap', rfl, history, howner, hfirst, hsecond, hread⟩

end Histories

end SwapSpace

end DemandPaging
