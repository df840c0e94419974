/-
  Frames and pages with every TLB copy written back.

  `Residency.settle copies` adds the bits of all copies to the entries of their pages and to
  the records of their frames, and clears the bits of absent pages, which count for nothing.
  What the kernel does to frames and pages it does to settled ones too: every operation on
  them commutes with `settle`, those that look at bits as long as no copy has any to add.
-/
import DemandPaging.Proofs.Reconcile

namespace DemandPaging

variable {copies more : List Mapping} {f : Frame} {pid : Pid} {v : Vpn} {write : Bool}

/-! ## Entries -/

/-- The entry of an absent page loses its bits. -/
def PageEntry.tidy (e : PageEntry) : PageEntry :=
  match e.state with
  | .absent => { e with used := false, dirty := false }
  | _ => e

/-- The entry with the bits of all copies, if the page has content. -/
def PageEntry.settle (copies : List Mapping) (e : PageEntry) : PageEntry := (e.absorb copies).tidy

namespace PageEntry

variable {e : PageEntry}

theorem tidy_of_not_absent (hs : e.state ≠ .absent) : e.tidy = e := by
  unfold tidy
  split
  · next h => exact absurd h hs
  · rfl

@[simp] theorem state_settle : (e.settle copies).state = e.state := by
  unfold settle tidy
  split <;> exact state_absorb

@[simp] theorem vpn_settle : (e.settle copies).vpn = e.vpn := by
  unfold settle tidy
  split <;> exact vpn_absorb

@[simp] theorem readOnly_settle : (e.settle copies).readOnly = e.readOnly := by
  unfold settle tidy
  split <;> exact readOnly_absorb

@[simp] theorem swapBacked_settle : (e.settle copies).swapBacked = e.swapBacked := by
  unfold settle tidy
  split <;> exact swapBacked_absorb

@[simp] theorem isValid_settle : (e.settle copies).isValid = e.isValid := by
  unfold isValid frame
  rw [state_settle]

theorem settle_resident (hs : e.state = .resident f) : e.settle copies = e.absorb copies :=
  tidy_of_not_absent (by simp [hs])

/-- Without bits to add a page that has content keeps its entry. -/
theorem settle_eq (hs : e.state ≠ .absent)
    (hbits : ∀ f, e.state = .resident f → usedIn copies f = false ∧ dirtyIn copies f = false) :
    e.settle copies = e := by
  have habsorb : e.absorb copies = e := by
    cases h : e.state with
    | resident f => rw [absorb_resident h, (hbits f h).1, (hbits f h).2, Bool.or_false, Bool.or_false]
    | absent => exact absurd h hs
    | swapped s => exact absorb_of_not_resident (by simp [h])
  rw [settle, habsorb, tidy_of_not_absent hs]

/-- A page that is loaded gets new bits. -/
theorem loaded_settle : (e.settle copies).loaded f = e.loaded f := by
  simp [loaded]

theorem settle_loaded (hbits : usedIn copies f = false ∧ dirtyIn copies f = false) :
    (e.loaded f).settle copies = e.loaded f := by
  have hstate : (e.loaded f).state = .resident f := rfl
  refine settle_eq (by simp [hstate]) fun g hg => ?_
  cases hstate.symm.trans hg
  exact hbits

/-- A page that has to go loses its `used` bit, and one that is dropped was not dirty. -/
theorem settle_evicted {state : PageState} (hs : ∀ g, state ≠ .resident g)
    (hclean : state = .absent → e.dirty = false) :
    (e.evicted state).settle copies = e.evicted state := by
  have hstate : (e.evicted state).state = state := rfl
  have habsorb : (e.evicted state).absorb copies = e.evicted state := absorb_of_not_resident hs
  unfold settle tidy
  rw [habsorb]
  split
  · next h => simp [evicted, hclean (hstate.symm.trans h)]
  · rfl

theorem settle_touch (hs : e.state = .resident f) :
    (e.touch write).settle copies = (e.settle copies).touch write := by
  have hstate : (e.touch write).state = .resident f := hs
  rw [settle_resident hstate, settle_resident hs, absorb_resident hstate, absorb_resident hs]
  simp only [touch, Bool.true_or, PageEntry.mk.injEq, and_true, true_and]
  exact Bool.or_right_comm ..

theorem settle_cleared (hbits : ∀ f, usedIn copies f = false) :
    ({ e with used := false } : PageEntry).settle copies =
      { e.settle copies with used := false } := by
  cases h : e.state <;> simp [settle, tidy, absorb, h, hbits]

/-- The bits of a page that is given up do not count, whenever copies are written back. -/
theorem settle_discarded {others : List Mapping} :
    (e.settle copies).discarded.settle more = e.discarded.settle others := by
  have hleft : (e.settle copies).discarded.settle more =
      ⟨(e.settle copies).vpn, .absent, (e.settle copies).readOnly, false, false,
        (e.settle copies).swapBacked⟩ := rfl
  rw [hleft, vpn_settle, readOnly_settle, swapBacked_settle]
  rfl

end PageEntry

/-! ## Frames -/

@[simp] theorem Mapping.vpn_absorb {m : Mapping} : (m.absorb copies).vpn = m.vpn := by
  unfold Mapping.absorb; split <;> rfl

@[simp] theorem Mapping.ppn_absorb {m : Mapping} : (m.absorb copies).ppn = m.ppn := by
  unfold Mapping.absorb; split <;> rfl

@[simp] theorem Mapping.readOnly_absorb {m : Mapping} :
    (m.absorb copies).readOnly = m.readOnly := by
  unfold Mapping.absorb; split <;> rfl

/-- The records of all frames with the bits of all copies. -/
def FrameTable.absorb (copies : List Mapping) (table : FrameTable) : FrameTable :=
  { table with frames := table.frames.map (FrameInfo.absorb copies) }

namespace FrameTable

variable {table : FrameTable} {m : Mapping}

theorem lookup_absorb :
    (table.absorb copies).lookup f = FrameInfo.absorb copies <$> table.lookup f := by
  unfold lookup absorb
  rw [Row.get?_eq, Row.get?_eq, Row.toList_map, List.getElem?_map]
  cases table.frames.toList[f]? <;> rfl

theorem put_absorb {i : FrameInfo} :
    (table.absorb copies).put f (i.absorb copies) = (table.put f i).absorb copies := by
  simp only [put, absorb, Row.map_set]

/-- Changes of a record that commute with adding bits do so in the table. -/
theorem update_absorb {c c' : FrameInfo → FrameInfo}
    (hc : ∀ i, c' (i.absorb copies) = (c i).absorb copies) :
    (table.absorb copies).update f c' = absorb copies <$> table.update f c := by
  unfold update
  rw [lookup_absorb]
  cases table.lookup f with
  | error e => rfl
  | ok i =>
    change Except.ok ((table.absorb copies).put f (c' (i.absorb copies))) = .ok _
    rw [hc, put_absorb]
    rfl

/-- What follows a look-up is the same with the bits added, if it is for each record. -/
theorem lookup_bind_absorb {next next' : FrameInfo → Checked FrameTable}
    (hnext : ∀ i, next' (i.absorb copies) = absorb copies <$> next i) :
    ((table.absorb copies).lookup f >>= next') = absorb copies <$> (table.lookup f >>= next) := by
  rw [lookup_absorb, map_bind, bind_map_left]
  exact congrArg (table.lookup f >>= ·) (funext hnext)

theorem giveBack_absorb :
    (table.absorb copies).giveBack f = absorb copies <$> table.giveBack f := by
  refine lookup_bind_absorb fun i => ?_
  have htable : (table.absorb copies).put f (.absorb copies {}) = (table.put f {}).absorb copies :=
    put_absorb
  have hput : (table.absorb copies).frames.set f {} = (table.frames.set f {}).map (.absorb copies) :=
    congrArg FrameTable.frames htable
  have hpinned : (i.absorb copies).isPinned = i.isPinned := rfl
  have hpool : (table.absorb copies).pool = table.pool := rfl
  rw [hput, hpinned, hpool]
  cases i.isPinned with
  | true => rfl
  | false => cases table.pool.contains f <;> rfl

theorem assign_absorb : (table.absorb copies).assign f pid (m.absorb copies) =
    absorb copies <$> table.assign f pid m := update_absorb fun _ => rfl

theorem record_absorb : (table.absorb copies).record f (m.absorb copies) =
    absorb copies <$> table.record f m := update_absorb fun _ => rfl

theorem release_absorb : (table.absorb copies).release f = absorb copies <$> table.release f :=
  update_absorb fun _ => rfl

theorem pin_absorb : (table.absorb copies).pin f = absorb copies <$> table.pin f := by
  refine lookup_bind_absorb fun i => ?_
  rw [map_bind]
  exact congrArg (addBelow limit32 i.pinCount 1 >>= ·)
    (funext fun n => update_absorb fun _ => rfl)

theorem unpin_absorb : (table.absorb copies).unpin f = absorb copies <$> table.unpin f := by
  refine lookup_bind_absorb fun i => ?_
  have hless : (table.absorb copies).update f (fun i => { i with pinCount := i.pinCount - 1 }) =
      absorb copies <$> table.update f fun i => { i with pinCount := i.pinCount - 1 } :=
    update_absorb fun _ => rfl
  rw [map_bind]
  refine congrArg (Checked.require i.isPinned (.frameNotPinned f) >>= ·) (funext fun _ => ?_)
  rw [hless, map_bind, bind_map_left]
  refine congrArg (table.update f _ >>= ·) (funext fun table' => ?_)
  have hcount : (i.absorb copies).pinCount = i.pinCount := rfl
  have hwaits : (i.absorb copies).freeWhenUnpinned = i.freeWhenUnpinned := rfl
  rw [hcount, hwaits]
  split
  · exact giveBack_absorb
  · rfl

theorem freeOrDefer_absorb :
    (table.absorb copies).freeOrDefer f = absorb copies <$> table.freeOrDefer f := by
  unfold freeOrDefer
  rw [release_absorb, map_bind, bind_map_left]
  refine congrArg (table.release f >>= ·) (funext fun table' => lookup_bind_absorb fun i => ?_)
  have hpinned : (i.absorb copies).isPinned = i.isPinned := rfl
  rw [hpinned]
  split
  · exact update_absorb fun _ => rfl
  · exact giveBack_absorb

theorem takeOne_absorb : (table.absorb copies).takeOne =
    table.takeOne.map fun (f, rest) => (f, rest.absorb copies) := by
  unfold takeOne
  rw [Option.map_map]
  rfl

theorem clearUsed_absorb (hbits : ∀ g, usedIn copies g = false) :
    (table.absorb copies).clearUsed f = absorb copies <$> table.clearUsed f := by
  refine update_absorb fun i => ?_
  unfold FrameInfo.absorb Mapping.absorb
  cases h : i.mapping.valid <;> simp [h, hbits]

end FrameTable

/-! ## Page tables -/

namespace PageTable

variable {table : PageTable} {e : PageEntry}

theorem get_map {c : PageEntry → PageEntry} : (table.map c).get v = (table.get v).map c := by
  cases h : table.find? v with
  | none => rw [get_eq_of_none h, get_eq_of_none (by rw [find?_map, h]; rfl)]; rfl
  | some e => rw [get_eq h, get_eq (by rw [find?_map, h]; rfl)]; rfl

theorem residentIn_settle : (table.map (.settle copies)).residentIn v f =
    (table.residentIn v f).map (.settle copies) := by
  have hfind : (table.map (.settle copies)).entries.get? v = _ := find?_map
  unfold residentIn
  rw [hfind, find?]
  cases table.entries.get? v with
  | none => rfl
  | some e =>
    simp only [Option.map_some, Option.filter, PageEntry.state_settle]
    split <;> rfl

theorem clearUsed_settle (hbits : ∀ g, usedIn copies g = false) :
    (table.map (.settle copies)).clearUsed v f = (table.clearUsed v f).map (.settle copies) := by
  unfold clearUsed
  rw [residentIn_settle]
  cases table.residentIn v f with
  | none => rfl
  | some e =>
    change (table.map (.settle copies)).set v { e.settle copies with used := false } = _
    rw [map_set, PageEntry.settle_cleared hbits]

theorem touch_settle (he : table.find? v = some e) (hs : e.state = .resident f) :
    (table.map (.settle copies)).touch v write =
      (table.touch v write).map fun r => (r.1.settle copies, r.2.map (.settle copies)) := by
  unfold touch
  rw [get_map, get_eq he]
  change Except.ok ((e.settle copies).touch write, _) = Except.ok ((e.touch write).settle copies, _)
  rw [PageEntry.settle_touch hs, map_set, PageEntry.settle_touch hs]

end PageTable

/-! ## Frames and pages -/

namespace Residency

variable {r : Residency} {p : Process} {t : PageTable} {e : PageEntry} {n : Nat}

/-- All copies written back, and no bits of absent pages. -/
def settle (copies : List Mapping) (r : Residency) : Residency :=
  r.map (PageEntry.settle copies) (FrameInfo.absorb copies)

theorem frames_settle : (r.settle copies).frames = r.frames.absorb copies := rfl

theorem process?_settle :
    (r.settle copies).process? pid = (r.process? pid).map (·.map (.settle copies)) := process?_map

theorem table?_settle :
    (r.settle copies).table? pid = (r.table? pid).map (·.map (.settle copies)) := by
  unfold table?
  rw [process?_settle]
  cases r.process? pid with
  | none => rfl
  | some p =>
    have hreg : (p.map (.settle copies)).registered = p.registered := rfl
    simp only [Option.map_some, Option.filter, hreg]
    split <;> rfl

/-- A change of a process that commutes with settling its entries. -/
theorem updateProcess_settle {c c' : Process → Process}
    (hc : ∀ p, r.process? pid = some p →
      c' (p.map (.settle copies)) = (c p).map (.settle copies)) :
    (r.settle copies).updateProcess pid c' = (r.updateProcess pid c).settle copies := by
  cases pid with
  | zero => rfl
  | succ n =>
    simp only [updateProcess, settle, map, Residency.mk.injEq, true_and]
    refine List.ext_getElem? fun i => ?_
    simp only [List.getElem?_map, List.getElem?_modify]
    by_cases hi : n = i
    · subst hi
      cases hn : r.processes[n]? with
      | none => rfl
      | some o =>
        cases o with
        | none => simp
        | some p =>
          have hp : r.process? (n + 1) = some p := by rw [process?, hn, Option.join_some]
          simp [hc p hp]
    · cases r.processes[i]? <;> simp [hi]

theorem setTable_settle : (r.settle copies).setTable pid (t.map (.settle copies)) =
    (r.setTable pid t).settle copies := updateProcess_settle fun _ _ => rfl

theorem setEntry_settle : (r.settle copies).setEntry pid v (e.settle copies) =
    (r.setEntry pid v e).settle copies :=
  updateProcess_settle fun p _ => by
    simp only [Process.map, PageTable.map_set]

theorem addProcess_settle : (r.settle copies).addProcess (p.map (.settle copies)) =
    (r.addProcess p).settle copies := by
  simp [addProcess, settle, map]

theorem dropProcess_settle :
    (r.settle copies).dropProcess pid = (r.dropProcess pid).settle copies := by
  cases pid with
  | zero => rfl
  | succ n => simp [dropProcess, settle, map, List.map_set]

theorem nextPid_settle : (r.settle copies).nextPid = r.nextPid := nextPid_map

/-! ## The sweep -/

theorem clearSpared_settle {spared : Spared} (hbits : ∀ g, usedIn copies g = false) :
    (r.settle copies).clearSpared spared = (r.clearSpared spared).settle copies := by
  unfold clearSpared
  rw [table?_settle]
  cases r.table? spared.owner with
  | none => rfl
  | some t =>
    change (r.settle copies).setTable spared.owner ((t.map (.settle copies)).clearUsed _ _) = _
    rw [PageTable.clearUsed_settle hbits, setTable_settle]

end Residency

/-- A sweep over records with bits added to them. -/
def Sweep.absorb (copies : List Mapping) (sweep : Sweep) : Sweep :=
  { sweep with frames := sweep.frames.absorb copies }

/-- The induction is on the steps of the hand.  The bits that a copy adds are not `used` bits,
    so that the hand spares the same frames. -/
theorem Sweep.steps_absorb {table : FrameTable} {n hand : Nat}
    (hbits : ∀ g, usedIn copies g = false) :
    Sweep.steps n (table.absorb copies) hand = absorb copies <$> Sweep.steps n table hand := by
  induction n generalizing table hand with
  | zero => rfl
  | succ n ih =>
    have hsize : (table.absorb copies).size = table.size := by
      simp [FrameTable.size, FrameTable.absorb]
    unfold Sweep.steps
    rw [FrameTable.lookup_absorb, hsize, map_bind, bind_map_left]
    refine congrArg (table.lookup (frameAt hand) >>= ·) (funext fun i => ?_)
    have howner : (i.absorb copies).owner = i.owner := rfl
    have hpinned : (i.absorb copies).isPinned = i.isPinned := rfl
    have hused : (i.absorb copies).mapping.used = i.mapping.used := by
      unfold FrameInfo.absorb Mapping.absorb
      split <;> simp [hbits]
    have hvpn : (i.absorb copies).mapping.vpn = i.mapping.vpn := Mapping.vpn_absorb
    rw [howner, hpinned, hused, hvpn]
    cases i.owner with
    | none => exact ih
    | some owner =>
      cases i.isPinned with
      | true => exact ih
      | false =>
        cases i.mapping.used with
        | false => rfl
        | true =>
          simp only [Bool.false_eq_true, if_false, if_true]
          rw [FrameTable.clearUsed_absorb hbits, map_bind, bind_map_left]
          refine congrArg (table.clearUsed (frameAt hand) >>= ·) (funext fun table' => ?_)
          rw [ih, map_bind, bind_map_left]
          rfl

/-- The clock gives the same victim when no copy has a `used` bit to add. -/
theorem Residency.selectVictim_settle {r : Residency} (hbits : ∀ g, usedIn copies g = false) :
    (r.settle copies).selectVictim =
      (fun s => (s.1, s.2.settle copies)) <$> r.selectVictim := by
  have hfold : ∀ (spared : List Spared) (r : Residency),
      spared.foldl clearSpared (r.settle copies) = (spared.foldl clearSpared r).settle copies := by
    intro spared
    induction spared with
    | nil => intro r; rfl
    | cons s rest ih => intro r; rw [List.foldl_cons, List.foldl_cons, clearSpared_settle hbits, ih]
  have hsize : (r.frames.absorb copies).size = r.frames.size := by
    simp [FrameTable.size, FrameTable.absorb]
  unfold selectVictim FrameTable.selectVictim
  rw [frames_settle, hsize, Sweep.steps_absorb hbits, map_bind, bind_map_left]
  refine congrArg (Sweep.steps _ r.frames r.hand >>= ·) (funext fun sweep => ?_)
  exact congrArg (fun r => Except.ok (sweep.victim, r)) (hfold sweep.spared
    { r with frames := sweep.frames, hand := sweep.hand })

end DemandPaging
