/-
  The end of a process.

  A process that ends gives back all that it has, and disturbs nobody (`Departed`).  After that it
  can do nothing any more (`Inert`), whatever happens in the meantime: its number is not given to
  another process, and nobody wakes it up.

  None of this needs every slot to have its page in it: slots may also be taken from the swap
  area directly (`Advances`), and go with the process that they were taken for.

  * `Strained.exit_complete`: the end of a process in a kernel where this has happened.
-/
import DemandPaging.Proofs.Agreement
import DemandPaging.Proofs.Operated

namespace DemandPaging.Kernel

variable {σ : Type} {c : Conduct σ} {V : Violation → Prop} {pins : Frame → Nat}
  {k k' k₁ : Kernel σ} {pid q : Pid} {p : Process}

section Runs

variable [BackingStore σ]

/-- The kernels that a fresh one can become. -/
def Strained (k : Kernel σ) : Prop :=
  ∃ pageSize config store sections picks k₀,
    boot pageSize config store sections picks = .ok k₀ ∧ Onward k₀ k

theorem Reachable.strained (h : k.Reachable) : k.Strained := by
  induction h with
  | fresh hboot => exact ⟨_, _, _, _, _, _, hboot, .refl⟩
  | step _ hrun ih =>
    obtain ⟨_, _, _, _, _, k₀, hboot, hsteps⟩ := ih
    exact ⟨_, _, _, _, _, k₀, hboot, hsteps.tail (.operated hrun)⟩

theorem Strained.sound (h : k.Strained) : ∃ pins, k.Sound pins none ∧ 0 < k.tlb.slots.length := by
  obtain ⟨_, _, _, _, _, k₀, hboot, hrun⟩ := h
  obtain ⟨hsound, htlb⟩ := (Checked.ends_of_eq_ok hboot).1 ends_boot
  obtain ⟨pins, hsound, htlb, -⟩ := hrun.preserves Conduct.any_holds hsound htlb trivial
    (fun _ _ => trivial) fun _ => trivial
  exact ⟨pins, hsound, htlb⟩

end Runs

/-! ## What is left of a process -/

/-- What processes other than `pid` have is as it was. -/
structure OthersKept (pid : Pid) (k k' : Kernel σ) : Prop where
  process : ∀ {q}, q ≠ pid → k'.residency.process? q = k.residency.process? q
  /-- Their frames have the same records. -/
  frame : ∀ {f i q}, q ≠ pid → i.owner = some q →
    (k'.residency.frames.info? f = some i ↔ k.residency.frames.info? f = some i)
  /-- All frames, those of `pid` included, have their pins. -/
  pins : ∀ f, (k'.residency.frames.info? f).map (·.pinCount) =
    (k.residency.frames.info? f).map (·.pinCount)
  memory : k'.memory = k.memory
  tlb : ∀ {j : Nat} {slot q}, q ≠ pid → slot.owner = some q → slot.mapping.valid = true →
    (k'.tlb.slots[j]? = some slot ↔ k.tlb.slots[j]? = some slot)
  slot : ∀ {s o}, o.pid ≠ pid →
    (k'.swap.slots.owner s = some o ↔ k.swap.slots.owner s = some o)
  /-- The swap area has the same bytes in the same places. -/
  store : k'.swap.store = k.swap.store
  slotSize : k'.swap.pageSize = k.swap.pageSize

/-- Process `pid` has given back all that it had, and disturbed nobody. -/
structure Departed (pid : Pid) (k k' : Kernel σ) : Prop extends OthersKept pid k k' where
  noFrame : ∀ {f i}, k'.residency.frames.info? f = some i → i.owner ≠ some pid
  noCopy : ∀ {slot}, slot ∈ k'.tlb.slots → slot.mapping.valid = true → slot.owner ≠ some pid
  /-- No slot of the swap area is its own, whether its page table knew of the slot or not. -/
  noSlot : ∀ {s o}, k'.swap.slots.owner s = some o → o.pid ≠ pid
  unregistered : k'.residency.table? pid = none
  absent : ∀ {p}, k'.residency.process? pid = some p → ∀ e ∈ p.table.entries.toList, e.state = .absent
  /-- The frames of its pages are in the pool, but for those that are pinned. -/
  pooled : ∀ {p v e f i}, k.residency.process? pid = some p → p.table.find? v = some e →
    e.state = .resident f → k.residency.frames.info? f = some i → i.isPinned = false →
    f ∈ k'.residency.frames.pool.toList

/-! ## The end -/

section Finished

variable {r : Residency} {slots : SlotTable}

/-- A frame of another process has the same page in it, so it has the same record. -/
theorem Sound.info?_finished (h : k.Sound pins none)
    (hfin : (k.finished pid r.frames slots).Sound pins none) {f : Frame} {i : FrameInfo}
    (hq : q ≠ pid) (ho : i.owner = some q) :
    (k.finished pid r.frames slots).residency.frames.info? f = some i ↔
      k.residency.frames.info? f = some i := by
  have hpage : ∀ v, (k.finished pid r.frames slots).residency.page? q v = k.residency.page? q v :=
    fun v => Residency.page?_finish.trans (if_neg hq)
  constructor
  · intro hi
    obtain ⟨e, he, hs, hheld⟩ := hfin.frames.owned hi (by simp) ho
    rw [(h.frames.resident ((hpage _).symm.trans he) hs).2, ← hheld]
  · intro hi
    obtain ⟨e, he, hs, hheld⟩ := h.frames.owned hi (by simp) ho
    rw [(hfin.frames.resident ((hpage _).trans he) hs).2, ← hheld]

/-- Only the slots of the process leave the TLB. -/
theorem getElem?_takeOwnedBy {j : Nat} {slot : TlbSlot} (hq : q ≠ pid)
    (ho : slot.owner = some q) :
    (k.tlb.takeOwnedBy pid).2.slots[j]? = some slot ↔ k.tlb.slots[j]? = some slot := by
  simp only [Tlb.takeOwnedBy, Tlb.takeWhere, List.getElem?_map, Option.map_eq_some_iff]
  constructor
  · rintro ⟨s, hs, hslot⟩
    split at hslot
    · rw [← hslot] at ho
      cases ho
    · rwa [← hslot]
  · intro hslot
    refine ⟨slot, hslot, if_neg ?_⟩
    simp [ho, hq]

theorem Sound.departed (h : k.Sound pins none) (hp : k.residency.process? pid = some p)
    (hlive : p.exited = false)
    (hrel : Residency.Released pins pid 0 p.table.entries.toList.length k.residency k.swap.slots r
      slots) : Departed pid k (k.finished pid r.frames slots) := by
  have hfin := h.finished hp hlive hrel
  have hnone : ∀ v, (k.finished pid r.frames slots).residency.page? pid v = none :=
    fun v => Residency.page?_finish.trans (if_pos rfl)
  have hself : (k.finished pid r.frames slots).residency.process? pid = some p.ended :=
    Residency.process?_finish.trans (by rw [if_pos rfl, hp, Option.map_some])
  have howner : ∀ s, (k.finished pid r.frames slots).swap.slots.owner s =
      (slots.owner s).filter fun o => o.pid ≠ pid := fun s => SlotTable.owner_deallocateOwnedBy
  refine {
    process := fun hq => Residency.process?_finish.trans (if_neg hq)
    frame := h.info?_finished hfin
    pins := fun _ => hfin.pinCount_eq.trans h.pinCount_eq.symm
    memory := rfl, store := rfl, slotSize := rfl
    tlb := fun hq ho _ => getElem?_takeOwnedBy hq ho
    slot := ?_, noFrame := ?_, noCopy := ?_, noSlot := ?_, unregistered := ?_, absent := ?_, pooled := ?_ }
  · -- a slot of another process is in none of the pages that are given back
    intro s o hpid
    rw [howner, Option.filter_eq_some_iff]
    refine ⟨fun ho => hrel.owner_eq_some ho.1, fun ho => ⟨?_, by simpa using hpid⟩⟩
    refine (hrel.kept s fun w _ _ hstate => hpid ?_).trans ho
    rw [← Option.some.inj ((h.slots s pid w hstate).symm.trans ho)]
  · intro f i hi ho
    obtain ⟨e, he, -⟩ := hfin.frames.owned hi (by simp) ho
    cases (hnone _).symm.trans he
  · intro slot hslot hv ho
    exact ne_of_takeOwnedBy hslot hv ho rfl
  · intro s o ho
    rw [howner, Option.filter_eq_some_iff] at ho
    simpa using ho.2
  · rw [Residency.table?, hself]
    rfl
  · intro p' hp' e he
    cases hself.symm.trans hp'
    exact hfin.frames.gone hself rfl e he
  · intro p' v e f i hp' he hs hi hpin
    have hpage := (h.live_of_resident hp' he hs).1
    have hcount : i.pinCount = pins f := h.frames.pinned hi (by simp)
    obtain ⟨j, hj⟩ : ∃ j, (k.finished pid r.frames slots).residency.frames.info? f = some j :=
      FrameTable.lt_size_iff.1 (hrel.size.symm ▸ FrameTable.lt_size hi)
    have hcount' : j.pinCount = pins f := hfin.frames.pinned hj (by simp)
    -- no page is in the frame any more
    have hunowned : j.isOwned = false := by
      cases ho : j.owner with
      | none => rw [FrameInfo.isOwned, ho]; rfl
      | some q =>
        obtain ⟨e', he', hs', -⟩ := hfin.frames.owned hj (by simp) ho
        have he'' := Residency.page?_finish.symm.trans he'
        split at he''
        · cases he''
        · next hq => exact absurd (h.frames.unique hpage hs he'' hs').1 hq
    have husable : (k.finished pid r.frames slots).residency.frames.usable =
        k.residency.frames.usable := congrArg (· % limit32) hrel.size
    refine (hfin.unowned hj hunowned (husable ▸ h.frames.frame_lt hpage hs)).1.2 ?_
    rw [FrameInfo.isPinned, hcount', ← hcount]
    exact hpin

/-- Forgetting a process that has ended disturbs nobody. -/
theorem Departed.withoutProcess (h : Departed pid k k') : Departed pid k (k'.withoutProcess pid) where
  process hq := (Residency.process?_dropProcess.trans (if_neg hq)).trans (h.process hq)
  frame hq ho := (Residency.frames_dropProcess ▸ h.frame hq ho :)
  pins f := (Residency.frames_dropProcess ▸ h.pins f :)
  memory := h.memory
  tlb := h.tlb
  slot := h.slot
  store := h.store
  slotSize := h.slotSize
  noFrame hi := h.noFrame (Residency.frames_dropProcess ▸ hi :)
  noCopy := h.noCopy
  noSlot := h.noSlot
  unregistered := by
    rw [Residency.table?, Kernel.withoutProcess, Residency.process?_dropProcess, if_pos rfl]
    rfl
  absent hp := by
    rw [Kernel.withoutProcess, Residency.process?_dropProcess, if_pos rfl] at hp
    cases hp
  pooled hp he hs hi hpin := (Residency.frames_dropProcess ▸ h.pooled hp he hs hi hpin :)

end Finished

/-! ## After the end -/

/-- The action fails with `error`, and does nothing else. -/
def Refuses {α : Type} (act : KernelM σ α) (error : PagingError) (k : Kernel σ) : Prop :=
  act.run.run k = .ok (.error error, k)

theorem Refuses.bind {α β : Type} {act : KernelM σ α} {error : PagingError}
    (h : Refuses act error k) {f : α → KernelM σ β} : Refuses (act >>= f) error k :=
  run_bind_of_error h

/-- Process `pid` can do nothing any more. -/
structure Inert [BackingStore σ] (pid : Pid) (k : Kernel σ) : Prop where
  exit : (k.residency.process? pid).isSome = true →
    (Kernel.exit (σ := σ) pid).run.run k = .ok (.ok (), k)
  /-- Nothing goes but what is known about the process itself. -/
  drop : (k.residency.process? pid).isSome = true →
    (Kernel.drop (σ := σ) pid).run.run k = .ok (.ok (), k.withoutProcess pid)
  loadByte : ∀ vaddr, Refuses (Kernel.loadByte pid vaddr) (.processExited pid) k
  storeByte : ∀ vaddr b, Refuses (Kernel.storeByte pid vaddr b) (.processExited pid) k
  /-- A word has to be aligned first of all. -/
  loadWord : ∀ vaddr, Refuses (Kernel.loadWord pid vaddr)
    (if vaddr % Bytes.wordSize ≠ 0 then .unalignedAccess vaddr else .processExited pid) k
  storeWord : ∀ vaddr w, Refuses (Kernel.storeWord pid vaddr w)
    (if vaddr % Bytes.wordSize ≠ 0 then .unalignedAccess vaddr else .processExited pid) k
  readBytes : ∀ vaddr buffer, (Kernel.readBytes pid vaddr buffer).run k =
    .ok ((.error (.processExited pid), buffer), k)
  writeBytes : ∀ vaddr data, Refuses (Kernel.writeBytes pid vaddr data) (.processExited pid) k
  handleMiss : k.memory.pageSize < limit32 →
    ∀ vaddr, Refuses (Kernel.handleMiss pid vaddr) (.processExited pid) k
  /-- The page is computed before the process is looked at. -/
  handleMiss_stops : limit32 ≤ k.memory.pageSize →
    ∀ vaddr, (Kernel.handleMiss pid vaddr).run.run k = .error .divisionByZero

/-- Process `pid` has been made, and has exited; it may have been forgotten since. -/
structure Ended (pid : Pid) (k : Kernel σ) : Prop where
  made : pid < k.residency.nextPid
  exited : ∀ {o}, k.residency.outline? pid = some o → o.exited = true

theorem Ended.liveProcess (h : k.Ended pid) : Refuses (liveProcess pid) (.processExited pid) k := by
  have hends : Ends (fun _ => False) (Kernel.liveProcess (σ := σ) pid).run k fun r k' =>
      r = .error (.processExited pid) ∧ k' = k := by
    unfold Kernel.liveProcess process
    simp only [ends_bind, ends_get]
    cases hp : k.residency.process? pid with
    | none => exact ⟨rfl, rfl⟩
    | some p =>
      have hdead : p.exited = true := h.exited (Residency.outline?_of_process hp)
      simp only [ends_pure, hdead, if_true]
      exact ⟨rfl, rfl⟩
  obtain ⟨_, _, hrun, rfl, rfl⟩ := ends_iff_eq_ok.1 hends
  exact hrun

theorem Ended.operated {op : Operation} {pins' : Frame → Nat} (h : k.Ended pid)
    (hop : Operated c pins k op pins' k') : k'.Ended pid where
  made := Nat.lt_of_lt_of_le h.made hop.nextPid_le
  exited ho' := by
    obtain ⟨o, ho, hages⟩ := hop.outline h.made ho'
    exact hages.exited (h.exited ho)

section Later

variable [BackingStore σ]

/-- A process that has ended stays so. -/
theorem Onward.ended (hrun : Onward k k') (hk : k.Sound pins none) (htlb : 0 < k.tlb.slots.length)
    (h : k.Ended pid) : k'.Ended pid := by
  obtain ⟨_, -, -, hended⟩ := hrun.preserves Conduct.any_holds hk htlb h
    (fun hop h => h.operated hop) fun h => ⟨h.made, h.exited⟩
  exact hended

theorem Ended.inert (h : k.Ended pid) (hk : k.Sound pins none) : k.Inert pid := by
  have hlive := h.liveProcess
  have haddress : ∀ vaddr write, Refuses (userAddress pid vaddr write) (.processExited pid) k :=
    fun _ _ => hlive.bind
  have hword : ∀ {α : Type} {vaddr : Nat} {write : Bool} {f : Nat → KernelM σ α},
      Refuses (do checkAligned vaddr; f (← userAddress pid vaddr write))
        (if vaddr % Bytes.wordSize ≠ 0 then .unalignedAccess vaddr else .processExited pid) k := by
    intro α vaddr write f
    by_cases halign : vaddr % Bytes.wordSize ≠ 0
    · rw [if_pos halign]
      refine Refuses.bind ?_
      unfold checkAligned
      rw [if_pos halign]
      rfl
    · rw [if_neg halign, checkAligned, if_neg halign]
      exact (haddress vaddr write).bind
  have hexit : (k.residency.process? pid).isSome = true →
      (Kernel.exit (σ := σ) pid).run.run k = .ok (.ok (), k) := by
    intro hsome
    obtain ⟨p, hp⟩ := Option.isSome_iff_exists.1 hsome
    have hdead : p.exited = true := h.exited (Residency.outline?_of_process hp)
    have hends : Ends (fun _ => False) (Kernel.exit (σ := σ) pid).run k fun r k' =>
        r = .ok () ∧ k' = k := by
      unfold Kernel.exit process
      simp only [ends_bind, ends_get, hp, ends_pure, hdead, if_true, and_self]
    obtain ⟨_, _, hrun, rfl, rfl⟩ := ends_iff_eq_ok.1 hends
    exact hrun
  refine {
    exit := hexit
    drop := ?_
    loadByte := fun vaddr => (haddress vaddr false).bind
    storeByte := fun vaddr b => (haddress vaddr true).bind
    loadWord := fun vaddr => hword
    storeWord := fun vaddr w => hword
    readBytes := ?_
    writeBytes := fun vaddr data => hlive.bind
    handleMiss := fun hsize vaddr => ?_
    handleMiss_stops := fun hsize vaddr => ?_ }
  · intro hsome
    rw [Kernel.drop, run_bind_of_ok (hexit hsome)]
    rfl
  · intro vaddr buffer
    rw [Kernel.readBytes, StateT.run_bind, hlive]
    rfl
  · have hresolve : Refuses (resolve pid (pageOf k.pageSize vaddr)) (.processExited pid) k :=
      hlive.bind
    have hdivided : (Kernel.handleMiss pid vaddr).run.run k =
        (resolve pid (pageOf k.pageSize vaddr) >>= install pid).run.run k := by
      have hsize' : (liftM (divisor k.pageSize) : KernelM σ Nat).run.run k =
          .ok (.ok k.pageSize, k) := by
        rw [hk.divisor_eq, if_pos hsize]
        rfl
      rw [Kernel.handleMiss, run_bind_of_ok (a := k) rfl, run_bind_of_ok hsize']
    exact hdivided.trans hresolve.bind
  · rw [Kernel.handleMiss, run_bind_of_ok (a := k) rfl, run_bind_of_stop]
    rw [hk.divisor_eq, if_neg (Nat.not_lt.2 hsize)]
    rfl

/-- Whatever has happened before, a process that lives and the pages of which can be counted exits,
    and when it exits or is dropped it gives back all that it has and disturbs nobody.  Whatever
    happens then, it stays that way.  A process with more pages in frames, or in slots, stops the
    machine when it exits or is dropped. -/
theorem Strained.exit_complete (h : k.Strained) (hp : k.residency.process? pid = some p)
    (hlive : p.exited = false) :
    (p.Releasable → ∃ k', (exit (σ := σ) pid).run.run k = .ok (.ok (), k') ∧ Departed pid k k' ∧
      k'.residency.process? pid = some p.ended ∧
      (drop (σ := σ) pid).run.run k = .ok (.ok (), k'.withoutProcess pid) ∧
      Departed pid k (k'.withoutProcess pid) ∧ ∀ k'', Onward k' k'' → k''.Inert pid) ∧
    (¬ p.Releasable → (exit (σ := σ) pid).run.run k = .error .overflow ∧
      (drop (σ := σ) pid).run.run k = .error .overflow) := by
  obtain ⟨pins, hsound, htlb⟩ := h.sound
  refine ⟨fun hcount => ?_, fun hcount =>
    ⟨hsound.exit_overflows hp hlive hcount, run_bind_of_stop (hsound.exit_overflows hp hlive hcount)⟩⟩
  have hexits : Exits (fun _ => False) pid k := by
    intro p' hp' _
    cases hp'.symm.trans hp
    exact .inl hcount
  have hends : Ends (fun _ => False) (exit (σ := σ) pid).run k fun r k' =>
      Exited pins pid k r k' := ends_exit hsound hexits fun _ _ hexit => hexit
  obtain ⟨r, k', hrun, hexit⟩ := ends_iff_eq_ok.1 hends
  have htlb' : 0 < k'.tlb.slots.length := hexit.same.tlbSize ▸ htlb
  have hsound' := hexit.sound hsound
  cases hexit with
  | missing hnone => cases hnone.symm.trans hp
  | again hp' hdead =>
    cases hp'.symm.trans hp
    cases hdead.symm.trans hlive
  | @ended p' r slots hp' _ _ hrel =>
    cases hp'.symm.trans hp
    have hdeparted := hsound.departed hp hlive hrel
    have hended : (k.finished pid r.frames slots).residency.process? pid = some p.ended :=
      Residency.process?_finish.trans (by rw [if_pos rfl, hp, Option.map_some])
    refine ⟨_, hrun, hdeparted, hended, ?_, hdeparted.withoutProcess, fun k'' hlater => ?_⟩
    · rw [drop, run_bind_of_ok hrun]
      rfl
    · obtain ⟨_, hsound'', -, -⟩ := hlater.preserves Conduct.any_holds hsound' htlb' trivial
        (fun _ _ => trivial) fun _ => trivial
      refine (hlater.ended hsound' htlb' ⟨Residency.lt_nextPid hended, fun ho => ?_⟩).inert hsound''
      rw [Residency.outline?, hended, Option.map_some] at ho
      cases ho
      rfl

/-- A process with a page in swap, a pinned page, another page in a frame, and a slot for a page
    that it does not have, beside another process: one of its frames is free afterwards, the
    pinned one waits, and no slot is in use. -/
theorem Strained.exit_complete_of_stray : ∃ k k' : Kernel MemoryStore,
    k.swap.slots.owner 0 = some ⟨1, 0⟩ ∧ k.swap.slots.owner 1 = some ⟨1, 9⟩ ∧
      k.stats = { freeFrames := 0, ownedFrames := 3, pinnedFrames := 1, swapSlotsInUse := 2
                  swapReads := 0, swapWrites := 1, pageFaults := 4, evictions := 1 } ∧
      k'.stats = { freeFrames := 1, ownedFrames := 1, pinnedFrames := 1, swapSlotsInUse := 0
                   swapReads := 0, swapWrites := 1, pageFaults := 4, evictions := 1 } ∧
      Departed 1 k k' ∧ k'.Inert 1 := by
  have hrun : (boot 4 { physPages := 3, tlbSize := 2, stackPages := 3 } ({} : MemoryStore) [] [] >>=
      fun k => (operate (.request (.spawn []))).run.run k >>= fun r₁ =>
        (operate (.request (.spawn []))).run.run r₁.2 >>= fun r₂ =>
          (operate (.request (.process 1 (.storeByte 0 7)))).run.run r₂.2 >>= fun r₃ =>
            (operate (.request (.process 1 (.storeByte 4 8)))).run.run r₃.2 >>= fun r₄ =>
              (operate (.request (.process 2 (.storeByte 0 9)))).run.run r₄.2 >>= fun r₅ =>
                (operate (.pin 1 2 true)).run.run r₅.2 >>= fun r₆ =>
                  let k : Kernel MemoryStore := { r₆.2 with swap := (r₆.2.swap.allocate ⟨1, 9⟩).2 }
                  (exit 1).run.run k >>= fun r₇ =>
                    .ok ((k.residency.process? 1).map (·.exited), k.swap.slots.owner 0,
                      k.swap.slots.owner 1, k.stats, r₇.2.stats)).toOption =
      some (some false, some ⟨1, 0⟩, some ⟨1, 9⟩,
        { freeFrames := 0, ownedFrames := 3, pinnedFrames := 1, swapSlotsInUse := 2
          swapReads := 0, swapWrites := 1, pageFaults := 4, evictions := 1 },
        { freeFrames := 1, ownedFrames := 1, pinnedFrames := 1, swapSlotsInUse := 0
          swapReads := 0, swapWrites := 1, pageFaults := 4, evictions := 1 }) := by
    decide +kernel
  obtain ⟨k₀, hboot, hrun⟩ := Checked.exists_of_toOption_bind hrun
  obtain ⟨⟨r₁, k₁⟩, hop₁, hrun⟩ := Checked.exists_of_toOption_bind hrun
  obtain ⟨⟨r₂, k₂⟩, hop₂, hrun⟩ := Checked.exists_of_toOption_bind hrun
  obtain ⟨⟨r₃, k₃⟩, hop₃, hrun⟩ := Checked.exists_of_toOption_bind hrun
  obtain ⟨⟨r₄, k₄⟩, hop₄, hrun⟩ := Checked.exists_of_toOption_bind hrun
  obtain ⟨⟨r₅, k₅⟩, hop₅, hrun⟩ := Checked.exists_of_toOption_bind hrun
  obtain ⟨⟨r₆, k₆⟩, hop₆, hrun⟩ := Checked.exists_of_toOption_bind hrun
  obtain ⟨⟨r₇, k₇⟩, hexit, hrun⟩ := Checked.exists_of_toOption_bind hrun
  have hall := Option.some.inj hrun
  simp only [Prod.mk.injEq] at hall
  obtain ⟨hlive, hswapped, hstray, hbefore, hafter⟩ := hall
  have hsteps : Onward k₀ k₆ :=
    .tail (.tail (.tail (.tail (.tail (.tail .refl (.operated hop₁)) (.operated hop₂))
      (.operated hop₃)) (.operated hop₄)) (.operated hop₅)) (.operated hop₆)
  have hstrained : Strained { k₆ with swap := (k₆.swap.allocate ⟨1, 9⟩).2 } :=
    ⟨_, _, _, _, _, k₀, hboot, .tail hsteps (.allocated _)⟩
  obtain ⟨p, hp, hlive⟩ := Option.map_eq_some_iff.1 hlive
  obtain ⟨hcomplete, hstop⟩ := Strained.exit_complete hstrained hp hlive
  have hcount : p.Releasable := Classical.byContradiction fun hcount => by
    cases hexit.symm.trans (hstop hcount).1
  obtain ⟨k', hexit', hdeparted, -, -, -, hinert⟩ := hcomplete hcount
  have hsame := hexit.symm.trans hexit'
  simp only [Except.ok.injEq, Prod.mk.injEq] at hsame
  obtain ⟨-, rfl⟩ := hsame
  exact ⟨_, k₇, hswapped, hstray, hbefore, hafter, hdeparted, hinert _ .refl⟩

end Later

end DemandPaging.Kernel
