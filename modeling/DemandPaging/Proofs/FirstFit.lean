/-
  How a swap area gives out its slots.

  A slot that is asked for is the first one that is not occupied, however slots were taken and
  given back before.  So a swap area is never larger than it had to be at some moment: its size
  is the largest number of slots that were occupied at once, and its transfers stay within it.

  * `ends_told`: what a call does to the slots is what it and its answer tell;
  * `CallHistory.records`: slots and events, after any calls;
  * `CallHistory.firstFit`: the slots of a swap area, after any calls.
-/
import DemandPaging.Proofs.SlotUse
import DemandPaging.Proofs.Watched

namespace DemandPaging

/-- What a call and its answer tell of the slots, if anything. -/
def SlotEvent.told? : SwapSpace.Call × Except StoreError SwapSpace.Reply → Option SlotEvent
  | (.allocate o, .ok (.slot s)) | (.swapOut o _, .ok (.slot s)) => some (took s o)
  | (.swapOut _ _, .error _) => some tried
  | (.free s, .ok _) | (.swapIn s _, .ok _) => some (gave s)
  | (.freeAll pid, .ok (.freed count)) => some (swept pid count)
  | _ => none

/-- What is told of a table has happened to it, and nothing else. -/
def SlotTable.Told (table : SlotTable) : Option SlotEvent → SlotTable → Prop
  | none, table' => table' = table
  | some event, table' => Changed table event table'

theorem SlotTable.Told.size_le {table table' : SlotTable} {event? : Option SlotEvent}
    (h : table.Told event? table') : table.size ≤ table'.size := by
  cases event? with
  | none => exact Nat.le_of_eq (congrArg size h.symm)
  | some event => exact Changed.size_le h

namespace SwapSpace

/-- What calls and their answers tell of the slots. -/
def events (calls : Calls) : List SlotEvent := calls.filterMap SlotEvent.told?

section Calls

variable {σ : Type} [BackingStore σ] {swap swap' : SwapSpace σ} {call : Call} {calls : Calls}
  {r : Except StoreError Reply}

/-- What a call does to the slots is what it and its answer tell. -/
theorem ends_told (hcall : call.Allowed swap) :
    Ends (fun _ => True) (perform call).run swap fun r swap' =>
      swap.slots.Told (SlotEvent.told? (call, r)) swap'.slots := by
  cases call with
  | allocate owner => exact .took
  | free slot =>
    obtain ⟨o, ho⟩ := Option.isSome_iff_exists.1 hcall
    obtain ⟨slots, hfree, -⟩ := SlotTable.deallocate_eq ho
    unfold perform free
    simp only [ends_bind, ends_get, ends_set, ends_lift, ends_pure, Checked.ends_bind]
    rw [hfree]
    exact .gave hfree
  | freeAll pid => exact .swept
  | writePage slot page =>
    unfold perform
    rw [ends_map]
    exact ends_writePage Conduct.any_holds hcall.1 hcall.2 fun r swap' hwrite => by
      cases hwrite <;> rfl
  | readPage slot len =>
    obtain ⟨rfl, hsome⟩ := hcall
    unfold perform
    rw [ends_map]
    exact ends_readPage Conduct.any_holds hsome fun r swap' hread => by cases hread <;> rfl
  | swapOut owner page =>
    unfold perform
    rw [ends_map]
    exact ends_swapOut_slots Conduct.any_holds hcall (fun _ _ => .took)
      fun _ _ _ _ hfree => .tried hfree
  | swapIn slot len =>
    obtain ⟨rfl, hsome⟩ := hcall
    unfold perform
    rw [ends_map]
    exact ends_swapIn_slots Conduct.any_holds hsome (fun _ _ _ _ hfree => .gave hfree)
      fun _ _ _ => rfl

theorem told_of_run (hrun : (perform call).run.run swap = .ok (r, swap')) :
    swap.slots.Told (SlotEvent.told? (call, r)) swap'.slots :=
  (ends_told (ends_allowed.of_run hrun)).of_run hrun

/-- A page that is swapped out was given a slot, and kept it. -/
theorem givenOut_of_swapOut {o : SlotOwner} {page : Bytes} {s : SlotIndex}
    (hrun : (perform (.swapOut o page)).run.run swap = .ok (.ok (.slot s), swap')) :
    swap.slots.GivenOut o s swap'.slots := by
  have htold := told_of_run hrun
  generalize swap'.slots = slots at htold
  cases htold with
  | took => exact SlotTable.givenOut_allocate

end Calls

/-! ## Histories -/

section Histories

variable {σ : Type} [BackingStore σ] {start swap : SwapSpace σ} {calls : Calls}

/-- The slots are as the calls and their answers say. -/
theorem CallHistory.records (hstart : start.slots.size = 0) (h : CallHistory start calls swap) :
    swap.slots.Records (events calls) := by
  induction h with
  | start => exact .of_no_slots hstart
  | @call calls call r _ swap' _ hrun ih =>
    have htold := told_of_run hrun
    rw [events, List.filterMap_cons]
    cases hevent : SlotEvent.told? (call, r) with
    | none =>
      rw [hevent] at htold
      exact htold ▸ ih
    | some event =>
      rw [hevent] at htold
      exact ih.changed htold

/-- All transfers that were asked of the store end within the slots. -/
def Within (swap : SwapSpace (Watched σ)) : Prop :=
  ∀ t ∈ swap.store.transfers, t.stop ≤ swap.slots.size * swap.pageSize

section Within

variable {swap swap' : SwapSpace (Watched σ)} {call : Call} {r : Except StoreError Reply}
  {s : SlotIndex}

omit [BackingStore σ] in
theorem Within.kept (h : swap.Within) (hsize : swap.slots.size ≤ swap'.slots.size)
    (hpage : swap'.pageSize = swap.pageSize) (hstore : swap'.store = swap.store) :
    swap'.Within := by
  intro t ht
  rw [hpage]
  exact Nat.le_trans (h t (hstore ▸ ht)) (Nat.mul_le_mul_right _ hsize)

omit [BackingStore σ] in
/-- A page is moved to or from a slot that is there. -/
theorem Within.noted (h : swap.Within) (hsize : swap.slots.size ≤ swap'.slots.size)
    (hpage : swap'.pageSize = swap.pageSize) (hs : s < swap'.slots.size)
    (hnoted : swap'.store.transfers = ⟨swap.offset s, swap.pageSize⟩ :: swap.store.transfers) :
    swap'.Within := by
  intro t ht
  rw [hpage]
  rcases List.mem_cons.1 (hnoted ▸ ht) with rfl | hbefore
  · have hroom := Nat.mul_le_mul_right swap.pageSize hs
    rwa [Nat.succ_mul] at hroom
  · exact Nat.le_trans (h t hbefore) (Nat.mul_le_mul_right _ hsize)

/-- No call moves bytes past the slots. -/
theorem Within.performed (h : swap.Within)
    (hrun : (perform call).run.run swap = .ok (r, swap')) : swap'.Within := by
  have hallowed := ends_allowed.of_run hrun
  have htold := told_of_run hrun
  have hsize := htold.size_le
  cases performed_of_run Watched.conduct_holds hrun with
  | allocate | free | freeAll => exact h.kept hsize rfl rfl
  | writePage hlen hwrite =>
    have hs := SlotTable.lt_size hallowed.2
    cases hwrite with
    | done hstore | failed hstore => exact h.noted hsize rfl hs (hlen ▸ hstore)
  | readPage hread =>
    have hs := SlotTable.lt_size hallowed.2
    cases hread with
    | done hstore | failed hstore => exact h.noted hsize rfl hs hstore
  | swapOut hlen hout =>
    cases hout with
    | done hstore =>
      exact h.noted hsize rfl SlotTable.next_lt_size_allocate (hlen ▸ hstore)
    | @failed store slots e hstore =>
      -- the slot was there while it was written
      have htried : SlotTable.Changed swap.slots .tried slots := htold
      cases htried with
      | tried hfree =>
        refine h.noted (s := swap.slots.next) hsize rfl ?_ (hlen ▸ hstore)
        exact (SlotTable.deallocate_eq_ok hfree).2.1 ▸ SlotTable.next_lt_size_allocate
  | swapIn hin =>
    have hs := SlotTable.lt_size hallowed.2
    cases hin with
    | done hstore => exact h.noted hsize rfl (Nat.lt_of_lt_of_le hs hsize) hstore
    | failed hstore => exact h.noted hsize rfl hs hstore

theorem CallHistory.within {start : SwapSpace (Watched σ)} (hstart : start.store.transfers = [])
    (h : CallHistory start calls swap) : swap.Within := by
  induction h with
  | start =>
    intro t ht
    rw [hstart] at ht
    cases ht
  | call _ hrun ih => exact ih.performed hrun

end Within

/-- How a swap area has used its slots after some calls. -/
structure FirstFit (start : SwapSpace σ) (calls : Calls) (swap : SwapSpace σ) : Prop where
  /-- Whoever asks for a slot gets the first one that is free. -/
  allocates : ∀ o, ∃ s swap', (perform (.allocate o)).run.run swap = .ok (.ok (.slot s), swap') ∧
    swap.slots.GivenOut o s swap'.slots
  swapsOut : ∀ o page s swap',
    (perform (.swapOut o page)).run.run swap = .ok (.ok (.slot s), swap') →
      swap.slots.GivenOut o s swap'.slots
  /-- The slots with an owner are those that were taken and not given back. -/
  occupied : ∀ s o, swap.slots.owner s = some o ↔ (s, o) ∈ SlotEvent.live (events calls)
  /-- No slot was given out while it was occupied. -/
  distinct : ((SlotEvent.live (events calls)).map Prod.fst).Nodup
  /-- The slots in use are those taken, less those given back. -/
  counted : swap.slots.inUse + ((events calls).map SlotEvent.gives).sum =
    ((events calls).map SlotEvent.takes).sum
  /-- Slots do not go away. -/
  grows : ∀ call r swap', (perform call).run.run swap = .ok (r, swap') →
    swap.slots.size ≤ swap'.slots.size
  /-- There are as many slots as were ever occupied at the same moment. -/
  size_eq : swap.slots.size = SlotEvent.peak (events calls)
  /-- No transfer has gone past the slots, as a store notes that is watched. -/
  within : ∃ watched : SwapSpace (Watched σ),
    CallHistory (start.mapStore fun store => ⟨store, []⟩) calls watched ∧
      watched.mapStore Watched.store = swap ∧
        ∀ t ∈ watched.store.transfers, t.stop ≤ swap.slots.size * start.pageSize

/-- After any calls on a swap area that had no slots at first, slots are given out first fit, and
    there are no more than were needed at once. -/
theorem CallHistory.firstFit (hstart : start.slots.size = 0) (h : CallHistory start calls swap) :
    FirstFit start calls swap := by
  have hrecords := h.records hstart
  let seen : SwapSpace (Watched σ) := start.mapStore fun store => ⟨store, []⟩
  have h' : CallHistory (seen.mapStore Watched.store) calls swap := h
  obtain ⟨watched, history, hseen⟩ := h'.of_mapStore Watched.carries
  exact {
    allocates := fun o => ⟨_, _, rfl, SlotTable.givenOut_allocate⟩
    swapsOut := fun o page s swap' => givenOut_of_swapOut
    occupied := hrecords.occupied
    distinct := hrecords.distinct
    counted := hrecords.counted
    grows := fun call r swap' hrun => (told_of_run hrun).size_le
    size_eq := hrecords.size_eq
    within := by
      refine ⟨watched, history, hseen, fun t ht => ?_⟩
      have hstop := history.within rfl t ht
      rw [history.pageSize_eq] at hstop
      exact hseen ▸ hstop }

/-- A page is refused that finds three slots taken, so there are four.  All are given back then,
    and the first one is taken again. -/
theorem CallHistory.firstFit_of_refused : ∃ (calls : Calls) (start swap : SwapSpace MemoryStore),
    start.pageSize = 4 ∧ start.slots.size = 0 ∧ CallHistory start calls swap ∧
      events calls = [.took 0 ⟨3, 0⟩, .swept 1 2, .gave 1, .tried, .took 2 ⟨1, 1⟩, .took 1 ⟨2, 0⟩,
        .took 0 ⟨1, 0⟩] ∧
        FirstFit start calls swap ∧ swap.slots.size = 4 := by
  let start : SwapSpace MemoryStore := { pageSize := 4, store := { failingWrites := [1] } }
  have hrun : ((performAll [.swapOut ⟨1, 0⟩ [1, 2, 3, 4], .allocate ⟨2, 0⟩, .allocate ⟨1, 1⟩,
      .swapOut ⟨4, 0⟩ [5, 6, 7, 8], .free 1, .freeAll 1, .allocate ⟨3, 0⟩] []).run start >>=
        fun r => .ok (events r.1)).toOption =
      some [.took 0 ⟨3, 0⟩, .swept 1 2, .gave 1, .tried, .took 2 ⟨1, 1⟩, .took 1 ⟨2, 0⟩,
        .took 0 ⟨1, 0⟩] := by
    decide +kernel
  obtain ⟨⟨calls, swap⟩, hcalls, hshown⟩ := Checked.exists_of_toOption_bind hrun
  have hevents : events calls = _ := Option.some.inj hshown
  have history : CallHistory start calls swap := CallHistory.start.ends_performAll.of_run hcalls
  have hfirst := CallHistory.firstFit rfl history
  refine ⟨calls, start, swap, rfl, rfl, history, hevents, hfirst, ?_⟩
  rw [hfirst.size_eq, hevents]
  rfl

end Histories

end SwapSpace

end DemandPaging
