/-
  The statistics balance.

  `ofOperation` is the tally of an operation: an instruction, a served miss and a pin visit one
  page, a copy visits the pages of its chunks up to the one that fails, and an exit gives back.
  Every operation moves the counters by its tally, whatever fails on the way; so along a run
  (`Tallied`) the counters agree with the tally of all that has happened.

  * `Tallied.balanced`: the statistics of a kernel, and the tally of the run that led to it.
-/
import DemandPaging.Kernel.Run
import DemandPaging.Proofs.Exit
import DemandPaging.Proofs.Tally

namespace DemandPaging.Kernel

variable {σ : Type} {c : Conduct σ} {pins pins' : Frame → Nat} {k k' k₁ : Kernel σ}
  {pid q : Pid} {v : Vpn} {e : PageEntry} {f : Frame} {p : Process} {t : Tally} {vaddr n : Nat}
  {write : Bool}

/-! ## What is of no account -/

theorem Sound.referenced_still (h : k.Sound pins none)
    (h' : (k.referenced pid v (e.touch write) f n).Sound pins' none)
    (he : k.residency.page? pid v = some e) : Still k (k.referenced pid v (e.touch write) f n) := by
  have hstates : ∀ q w, (k.referenced pid v (e.touch write) f n).state? q w = k.state? q w :=
    fun _ _ => Residency.state_link he rfl
  exact ⟨hstates, h.ownedFrames_congr h' rfl hstates, rfl, rfl, rfl, rfl, rfl⟩

theorem Unpinned.still (hun : Unpinned pins f k k') (h : k.Sound pins none) : Still k k' := by
  have hstates : ∀ q w, k'.state? q w = k.state? q w := fun _ _ => congrArg (Option.map _) hun.page?
  have howned := h.ownedFrames_congr (hun.sound h) hun.keeps.config hstates
  cases hun <;> exact ⟨hstates, howned, rfl, rfl, rfl, rfl, rfl⟩

theorem still_memory {memory : PhysicalMemory} : Still k { k with memory } :=
  ⟨fun _ _ => rfl, rfl, rfl, rfl, rfl, rfl, rfl⟩

theorem ends_reading_still {α : Type} {op : PhysicalMemory → Attempt MemoryError α} :
    Ends (fun _ => True) (reading (σ := σ) op).run k fun _ k' => Still k k' := by
  unfold reading
  simp only [ends_bind, ends_get, ends_ofAttempt]
  exact Checked.ends_of_forall fun _ => Still.refl

theorem ends_writing_still {op : PhysicalMemory → Attempt MemoryError PhysicalMemory} :
    Ends (fun _ => True) (writing (σ := σ) op).run k fun _ k' => Still k k' := by
  unfold writing
  rw [ends_bind]
  refine ends_reading_still.imp fun r k' hstill => ?_
  cases r with
  | error error => exact hstill
  | ok memory => exact ends_modify.2 (hstill.trans still_memory)

/-- A new process has no frames and no slots. -/
theorem Spawned.moved {sections : List SectionId} {r : Except PagingError Pid}
    (hspawn : Spawned sections k r k') : Moved {} k k' := by
  cases hspawn with
  | refused => exact Still.refl.moved
  | made => exact ⟨rfl, rfl, rfl, rfl, rfl, Nat.le_refl _, Nat.le_refl _⟩

/-! ## Instructions and pins -/

theorem Translated.still {r : Except PagingError (Option Nat)}
    (htr : Translated pid vaddr write k r k') : Still k k' := by
  cases htr with
  | miss => exact .refl
  | refused => exact .refl
  | hit => exact ⟨fun _ _ => rfl, rfl, rfl, rfl, rfl, rfl, rfl⟩

/-- A page that the TLB leads to is in its frame. -/
theorem Translated.visited {r : Except PagingError (Option Nat)}
    (htr : Translated pid vaddr write k r k') (h : k.Sound pins none) (hr : r ≠ .ok none) :
    Visited c pins pid (pageOf k.memory.pageSize vaddr) k k' := by
  obtain ⟨e, f, he, hs⟩ := htr.resident h hr
  exact ⟨_, k, .there he hs, htr.still⟩

theorem Served.visited {r : Except PagingError Unit} (hserved : Served c pins pid v k r k')
    (h : k.Sound pins none) : Visited c pins pid v k k' := by
  cases hserved with
  | failed hres => exact ⟨_, _, hres, .refl⟩
  | served hres hslot =>
    have hready := hres.ready h
    obtain ⟨hv, hb, -⟩ := hready.mapping
    exact ⟨_, _, hres, hready.sound.absorbed_still (loaded_stays hready.sound hv hb hslot).sound⟩

theorem PinnedPage.visited {r : Except PagingError Frame}
    (hpage : PinnedPage c pins pid v write k r k') (h : k.Sound pins none) :
    Visited c pins pid v k k' := by
  cases hpage with
  | failed hres => exact ⟨_, _, hres, .refl⟩
  | refused hres => exact ⟨_, _, hres, .refl⟩
  | pinned hres he hs hwrite =>
    have h₁ := (hres.ready h).toStays.sound
    exact ⟨_, _, hres, h₁.referenced_still (h₁.referenced he hs hwrite) he⟩

theorem Copied.visited {α : Type} {r : Except PagingError α}
    {R : Frame → PhysicalMemory → Except PagingError α → PhysicalMemory → Prop}
    (hcopied : Copied c pins pid v write R k r k') (h : k.Sound pins none) :
    Visited c pins pid v k k' := by
  cases hcopied with
  | failed hres => exact ⟨_, _, hres, .refl⟩
  | refused hres => exact ⟨_, _, hres, .refl⟩
  | moved hres he hs hwrite _ =>
    have h₁ := (hres.ready h).toStays.sound
    exact ⟨_, _, hres, (h₁.referenced_still (h₁.marked he hs hwrite) he).trans still_memory⟩

theorem Sought.visited {r : Except PagingError Nat}
    (hsought : Sought c pins pid vaddr write k r k') (h : k.Sound pins none) :
    Visited c pins pid (pageOf k.memory.pageSize vaddr) k k' := by
  cases hsought with
  | exited hdead => exact ⟨_, k, .exited hdead, .refl⟩
  | @outside p hp hlive hout =>
    refine ⟨_, k, .outside hp hlive ?_, .refl⟩
    have hsized : p.numPages = (p.table.entries.toList.map (·.readOnly)).length :=
      h.frames.sized (Residency.outline?_of_process hp)
    rw [List.length_map] at hsized
    rw [PageTable.find?_eq]
    exact List.getElem?_eq_none (hsized ▸ hout)
  | unserved hserved => exact hserved.visited h
  | first htr => exact htr.visited h (by cases r <;> nofun)
  | second hserved htr => exact (hserved.visited h).still htr.still

/-- An instruction visits the page of its address, and does no more than move bytes there. -/
theorem ends_instruction_visited [BackingStore σ] {α : Type} {act : Nat → KernelM σ α}
    (hc : Tolerated c (fun _ => True) k) (h : k.Sound pins none) (hsize : 0 < k.tlb.slots.length)
    (hact : ∀ address k₁, Ends (fun _ => True) (act address).run k₁ fun _ k' => Still k₁ k') :
    Ends (fun _ => True) (userAddress pid vaddr write >>= act).run k fun _ k' =>
      Visited c pins pid (pageOf k.memory.pageSize vaddr) k k' := by
  rw [ends_bind]
  refine ends_userAddress_sought hc h hsize fun r k₁ hsought => ?_
  have hvisited := hsought.visited h
  cases r with
  | error error => exact hvisited
  | ok address => exact (hact address k₁).imp fun _ _ hstill => hvisited.still hstill

/-! ## Copies -/

section Copies

variable [BackingStore σ]

/-- What copies of chunks have done one after another, up to the one that fails. -/
def ofCopies (pid : Pid) : List (Chunk × KernelM σ Unit) → Kernel σ → Tally
  | [], _ => {}
  | (chunk, copy) :: rest, k =>
    match copy.run.run k with
    | .ok (.ok _, k') => k.ofVisit k' pid chunk.vpn + ofCopies pid rest k'
    | .ok (.error _, k') => k.ofVisit k' pid chunk.vpn
    | .error _ => {}

/-- The copy of a chunk to a buffer. -/
def copyIn (pid : Pid) (chunk : Chunk) : Chunk × KernelM σ Unit :=
  (chunk, (fun _ => ()) <$>
    copyChunk pid false chunk fun address => reading (·.read address chunk.amount))

/-- The copies of chunks from the front of `data`. -/
def copiesOut (pid : Pid) : List Chunk → (data : Bytes) → List (Chunk × KernelM σ Unit)
  | [], _ => []
  | chunk :: rest, data =>
    (chunk, copyChunk pid true chunk fun address => writing (·.write address (data.take chunk.amount))) ::
      copiesOut pid rest (data.drop chunk.amount)

/-- The induction is on the chunks: a visit, and what follows unless it has failed. -/
theorem ends_readChunks_moved {list : List Chunk} {pieces : List Bytes}
    (hc : Tolerated c (fun _ => True) k) (h : k.Sound pins none)
    (hfits : ∀ chunk ∈ list, chunk.offset + chunk.amount ≤ k.memory.pageSize) :
    Ends (fun _ => True) (readChunks pid list pieces) k fun _ k' =>
      Moved (ofCopies pid (list.map (copyIn pid)) k) k k' := by
  induction list generalizing k pieces with
  | nil => exact Still.refl.moved
  | cons chunk rest ih =>
    have hcopy : Ends (fun _ => True)
        (copyChunk pid false chunk fun address => reading (·.read address chunk.amount)).run k
        (Copied c pins pid chunk.vpn false (ReadFrom chunk) k) :=
      ends_copyChunk hc h (fun _ _ => .inr trivial) (moves_read (hfits chunk List.mem_cons_self))
        fun _ _ hcopied => hcopied
    unfold readChunks
    rw [step_ends_bind]
    refine hcopy.with_run.imp fun r k₁ hdone => ?_
    obtain ⟨hcopied, hrun⟩ := hdone
    have hmoved := (hcopied.visited h).moved h
    have hstays := hcopied.stays_of_read h
    rw [List.map_cons, copyIn, ofCopies, ExceptT.run_map, StateT.run_map, hrun]
    cases r with
    | error error => exact hmoved
    | ok bytes =>
      exact (ih (hc.of_keeps hstays.keeps) hstays.sound (hstays.keeps.fits_rest hfits)).imp
        fun _ _ hrest => hmoved.trans hrest

theorem ends_writeChunks_moved {list : List Chunk} {data : Bytes} {moved : Nat}
    (hc : Tolerated c (fun _ => True) k) (h : k.Sound pins none)
    (hfits : ∀ chunk ∈ list, chunk.offset + chunk.amount ≤ k.memory.pageSize) :
    Ends (fun _ => True) (writeChunks pid list data moved).run k fun _ k' =>
      Moved (ofCopies pid (copiesOut pid list data) k) k k' := by
  induction list generalizing k data moved with
  | nil => exact Still.refl.moved
  | cons chunk rest ih =>
    have hchunk := hfits chunk List.mem_cons_self
    have htake : (data.take chunk.amount).length ≤ chunk.amount := List.length_take_le _ _
    have hcopy : Ends (fun _ => True) (copyChunk pid true chunk fun address =>
        writing (·.write address (data.take chunk.amount))).run k
        (Copied c pins pid chunk.vpn true (WrittenTo chunk (data.take chunk.amount)) k) :=
      ends_copyChunk hc h (fun _ _ => .inr trivial) (moves_write hchunk htake)
        fun _ _ hcopied => hcopied
    unfold writeChunks
    rw [ends_bind]
    refine hcopy.with_run.imp fun r k₁ hdone => ?_
    obtain ⟨hcopied, hrun⟩ := hdone
    have hmoved := (hcopied.visited h).moved h
    have hstays := hcopied.stays_of_write h (by omega)
    rw [copiesOut, ofCopies, hrun]
    cases r with
    | error error => exact hmoved
    | ok _ =>
      exact (ih (hc.of_keeps hstays.keeps) hstays.sound (hstays.keeps.fits_rest hfits)).imp
        fun _ _ hrest => hmoved.trans hrest

end Copies

/-! ## Exits -/

/-- Owners are lost, and there are no new ones. -/
structure GivesBack (k k' : Kernel σ) : Prop where
  size : k'.residency.frames.size = k.residency.frames.size
  held : ∀ f, (k'.held? f).isSome = true → (k.held? f).isSome = true
  owner : ∀ s, (k'.swap.slots.owner s).isSome = true → (k.swap.slots.owner s).isSome = true
  reads : k'.swap.reads = k.swap.reads
  writes : k'.swap.writes = k.swap.writes
  faults : k'.pageFaults = k.pageFaults
  evictions : k'.evictions = k.evictions

theorem GivesBack.refl : GivesBack k k := ⟨rfl, fun _ => id, fun _ => id, rfl, rfl, rfl, rfl⟩

theorem GivesBack.moved (h : GivesBack k k') : Moved (k.ofExit k') k k' := by
  have hframes : k'.residency.frames.ownedFrames + (k.ofExit k').released =
      k.residency.frames.ownedFrames := by
    rw [ownedFrames_eq, ownedFrames_eq, h.size, ofExit]
    exact countP_add_lost h.held
  have hslots : k'.swap.slots.inUse + (k.ofExit k').freed = k.swap.slots.inUse := by
    rw [SlotTable.inUse_eq fun s hs => SlotTable.lt_size (h.owner s hs),
      SlotTable.inUse_eq fun _ => SlotTable.lt_size, ofExit]
    exact countP_add_lost h.owner
  obtain ⟨-, -, -, hreads, hwrites, hfaults, hevictions⟩ := h
  have hserved : (k.ofExit k').served = 0 := rfl
  constructor
  · exact hfaults
  · omega
  · omega
  · exact hwrites
  · exact hevictions
  · exact Nat.le_refl _
  · exact Nat.le_refl _

theorem Exited.givesBack {r : Except PagingError Unit} (hexit : Exited pins pid k r k')
    (h : k.Sound pins none) : GivesBack k k' := by
  cases hexit with
  | missing => exact .refl
  | again => exact .refl
  | ended hp hlive _ hrel =>
    have hdeparted := h.departed hp hlive hrel
    refine ⟨hrel.size, fun f hheld => ?_, fun s hs => ?_, rfl, rfl, rfl, rfl⟩
    · obtain ⟨page, hpage⟩ := Option.isSome_iff_exists.1 hheld
      obtain ⟨i, hi, howner⟩ := Option.bind_eq_some_iff.1 hpage
      obtain ⟨q, ho, rfl⟩ := Option.map_eq_some_iff.1 howner
      have hother : q ≠ pid := fun hq => hdeparted.noFrame hi (hq ▸ ho)
      rw [held?, (hdeparted.frame hother ho).1 hi, Option.bind_some, ho]
      rfl
    · obtain ⟨o, ho⟩ := Option.isSome_iff_exists.1 hs
      rw [(hdeparted.slot (hdeparted.noSlot ho)).1 ho]
      rfl

theorem GivesBack.withoutProcess (h : GivesBack k k') : GivesBack k (k'.withoutProcess pid) := by
  have hframes : (k'.withoutProcess pid).residency.frames = k'.residency.frames :=
    Residency.frames_dropProcess
  refine ⟨(congrArg FrameTable.size hframes).trans h.size, fun f hheld => h.held f ?_, h.owner,
    h.reads, h.writes, h.faults, h.evictions⟩
  rwa [held?, hframes] at hheld

/-! ## Operations -/

section Operations

variable [BackingStore σ]

/-- What a request of a process has done.  A word that is not aligned, and a copy for a process
    that has exited, are refused without a visit. -/
def ofRequest (k k' : Kernel σ) (pid : Pid) (p : Process) : ProcessRequest → Tally
  | .loadByte vaddr | .storeByte vaddr _ | .handleMiss vaddr =>
    k.ofVisit k' pid (pageOf k.pageSize vaddr.toNat)
  | .loadWord vaddr | .storeWord vaddr _ =>
    if vaddr.toNat % Bytes.wordSize = 0 then k.ofVisit k' pid (pageOf k.pageSize vaddr.toNat) else {}
  | .readBytes vaddr buffer =>
    if p.exited then {} else
      ofCopies pid ((chunks k.pageSize p.numPages vaddr.toNat buffer.length).map (copyIn pid)) k
  | .writeBytes vaddr data =>
    if p.exited then {} else
      ofCopies pid (copiesOut pid (chunks k.pageSize p.numPages vaddr.toNat data.length) data) k
  | .saveState | .restoreState => {}
  | .exit | .drop => k.ofExit k'

/-- What an operation has done that was asked of `k` and has led to `k'`. -/
def ofOperation (k k' : Kernel σ) : Operation → Tally
  | .request (.spawn _) => {}
  | .request (.process pid request) =>
    match k.residency.process? pid with
    | some p => k.ofRequest k' pid p request
    | none => {}
  | .pin pid v _ => k.ofVisit k' pid v
  | .unpin _ => {}

theorem ends_word_moved {α : Type} {act : Nat → KernelM σ α} (hc : Tolerated c (fun _ => True) k)
    (h : k.Sound pins none) (hsize : 0 < k.tlb.slots.length)
    (hact : ∀ address k₁, Ends (fun _ => True) (act address).run k₁ fun _ k' => Still k₁ k') :
    Ends (fun _ => True) (do checkAligned vaddr; act (← userAddress pid vaddr write)).run k fun _ k' =>
      Moved (if vaddr % Bytes.wordSize = 0 then k.ofVisit k' pid (pageOf k.pageSize vaddr) else {})
        k k' := by
  rw [ends_bind]
  unfold checkAligned
  rw [ends_ite]
  by_cases haligned : vaddr % Bytes.wordSize = 0
  · simp only [if_pos haligned]
    refine ⟨fun hodd => absurd haligned hodd, fun _ => ?_⟩
    exact (ends_instruction_visited hc h hsize hact).imp fun _ _ hvisited => hvisited.moved h
  · simp only [if_neg haligned]
    exact ⟨fun _ => Still.refl.moved, fun heven => absurd (Classical.not_not.1 heven) haligned⟩

theorem ends_readBytes_moved {buffer : Bytes} (hc : Tolerated c (fun _ => True) k)
    (h : k.Sound pins none) (hp : k.residency.process? pid = some p) :
    Ends (fun _ => True) (readBytes pid vaddr buffer) k fun _ k' =>
      Moved (if p.exited then {} else
        ofCopies pid ((chunks k.pageSize p.numPages vaddr buffer.length).map (copyIn pid)) k) k k' := by
  unfold readBytes
  rw [step_ends_bind]
  refine ends_liveProcess (fun hdead => ?_) fun p' hp' hlive => ?_
  · rw [if_pos (hdead p hp)]
    exact Still.refl.moved
  · cases hp.symm.trans hp'
    dsimp only
    rw [step_ends_bind, step_ends_get, step_ends_bind, step_ends_lift, hlive]
    refine h.ends_cut hc.divides ?_
    rw [step_ends_bind]
    exact (ends_readChunks_moved hc h fun _ hmem => chunk_fits h.memory.pageSize_pos hmem).imp
      fun _ _ hmoved => hmoved

theorem ends_writeBytes_moved {data : Bytes} (hc : Tolerated c (fun _ => True) k)
    (h : k.Sound pins none) (hp : k.residency.process? pid = some p) :
    Ends (fun _ => True) (writeBytes pid vaddr data).run k fun _ k' =>
      Moved (if p.exited then {} else
        ofCopies pid (copiesOut pid (chunks k.pageSize p.numPages vaddr data.length) data) k) k k' := by
  unfold writeBytes
  rw [ends_bind]
  refine ends_liveProcess (fun hdead => ?_) fun p' hp' hlive => ?_
  · rw [if_pos (hdead p hp)]
    exact Still.refl.moved
  · cases hp.symm.trans hp'
    dsimp only
    rw [ends_bind, ends_get, hlive]
    dsimp only
    rw [ends_bind, ends_lift]
    refine h.ends_cut hc.divides ?_
    exact ends_writeChunks_moved hc h fun _ hmem => chunk_fits h.memory.pageSize_pos hmem

theorem ends_performFor_moved {request : ProcessRequest} (hc : Tolerated c (fun _ => True) k)
    (h : k.Sound pins none) (hsize : 0 < k.tlb.slots.length)
    (hp : k.residency.process? pid = some p) :
    Ends (fun _ => True) (performFor pid request).run k fun _ k' =>
      Moved (k.ofRequest k' pid p request) k k' := by
  have hmoved : ∀ {vaddr k'}, Visited c pins pid (pageOf k.memory.pageSize vaddr) k k' →
      Moved (k.ofVisit k' pid (pageOf k.pageSize vaddr)) k k' := fun hvisited => hvisited.moved h
  cases request with
  | loadByte vaddr =>
    exact ends_map.2 ((ends_instruction_visited hc h hsize fun _ _ => ends_reading_still).imp
      fun _ _ => hmoved)
  | storeByte vaddr b =>
    exact ends_map.2 ((ends_instruction_visited hc h hsize fun _ _ => ends_writing_still).imp
      fun _ _ => hmoved)
  | loadWord vaddr =>
    exact ends_map.2 (ends_word_moved hc h hsize fun _ _ => ends_reading_still)
  | storeWord vaddr w =>
    exact ends_map.2 (ends_word_moved hc h hsize fun _ _ => ends_writing_still)
  | readBytes vaddr buffer =>
    refine ends_bind.2 (ends_exceptT_lift.2 ((ends_readBytes_moved hc h hp).imp ?_))
    rintro ⟨result, bytes⟩ k' hmoved
    cases result <;> exact hmoved
  | writeBytes vaddr data => exact ends_map.2 (ends_writeBytes_moved hc h hp)
  | handleMiss vaddr =>
    exact ends_map.2 (ends_handleMiss hc h hsize fun _ _ hserved => hmoved (hserved.visited h))
  | saveState => exact ends_map.2 ((ends_flush h).2 (h.absorbed_still h.flushed).moved)
  | restoreState => exact Still.refl.moved
  | exit => exact ends_map.2 (ends_exit h .any fun _ _ hexit => (hexit.givesBack h).moved)
  | drop =>
    exact ends_map.2 (ends_drop h .any (fun _ => GivesBack.refl.moved) fun k₁ hexit =>
      (hexit.givesBack h).withoutProcess.moved)

/-- Every operation moves the counters by its tally. -/
theorem ends_operate_moved {op : Operation} (hc : Tolerated c (fun _ => True) k)
    (h : k.Sound pins none) (hsize : 0 < k.tlb.slots.length) :
    Ends (fun _ => True) (operate op).run k fun _ k' => Moved (k.ofOperation k' op) k k' := by
  cases op with
  | request r =>
    refine ends_map.2 ?_
    cases r with
    | spawn sections =>
      refine ends_bind.2 (ends_spawn.imp fun r k' hspawn => ?_)
      cases r with
      | error e => exact hspawn.moved
      | ok pid =>
        simp only [process, ends_bind, ends_get]
        cases k'.residency.process? pid <;> exact hspawn.moved
    | process pid request =>
      simp only [perform, ends_bind, ends_get]
      cases hp : k.residency.process? pid with
      | none =>
        refine (?_ : Moved (k.ofOperation k (.request (.process pid request))) k k)
        rw [ofOperation, hp]
        exact Still.refl.moved
      | some p =>
        refine (ends_performFor_moved hc h hsize hp).imp fun _ k' hmoved => ?_
        rw [ofOperation, hp]
        exact hmoved
  | pin pid v write =>
    refine ends_map.2 (ends_pinPage hc h (fun _ _ => .inr trivial) fun r k' hpage => ?_)
    exact (hpage.visited h).moved h
  | unpin f => exact ends_unpin_or_stop h fun k' hun => (hun.still h).moved

/-! ## Runs -/

/-- A kernel that a fresh one has become, with the tally of all that has happened on the way. -/
inductive Tallied : Tally → Kernel σ → Prop where
  | fresh {pageSize config store sections picks k}
    (h : boot pageSize config store sections picks = .ok k) : Tallied {} k
  | step {t k op r k'} (h : Tallied t k) (hrun : (operate op).run.run k = .ok (r, k')) :
    Tallied (t + k.ofOperation k' op) k'

theorem Tallied.reachable (h : Tallied t k) : k.Reachable := by
  induction h with
  | fresh h => exact .fresh h
  | step _ hrun ih => exact ih.step hrun

/-- Whatever way has led to a kernel, it has a tally. -/
theorem Reachable.exists_tallied (h : k.Reachable) : ∃ t, Tallied t k := by
  induction h with
  | fresh h => exact ⟨_, .fresh h⟩
  | step _ hrun ih =>
    obtain ⟨t, ht⟩ := ih
    exact ⟨_, ht.step hrun⟩

/-- Carries out operations one after another, and adds what they have done to a tally. -/
def tallying : List Operation → Tally × Kernel σ → Checked (Tally × Kernel σ)
  | [], counted => .ok counted
  | op :: rest, (t, k) => do
    let (_, k') ← (operate op).run.run k
    tallying rest (t + k.ofOperation k' op, k')

theorem Tallied.tallying {ops : List Operation} {counted : Tally × Kernel σ} (h : Tallied t k)
    (hrun : Kernel.tallying ops (t, k) = .ok counted) : Tallied counted.1 counted.2 := by
  induction ops generalizing t k with
  | nil =>
    cases hrun
    exact h
  | cons op rest ih =>
    unfold Kernel.tallying at hrun
    cases hop : (operate op).run.run k with
    | error violation =>
      rw [hop] at hrun
      cases hrun
    | ok result =>
      rw [hop] at hrun
      exact ih (h.step hop) hrun

/-- In every kernel that operations lead to, whatever has failed on the way, the statistics
    balance: faults have served their page or have not, pages that came in are in frames, have been
    evicted, or have gone with their process, and pages that went to swap are there, have come
    back, or have gone with their process.  The induction is on the operations. -/
theorem Tallied.balanced (h : Tallied t k) : Balanced t k := by
  induction h with
  | fresh h => exact (Checked.ends_of_eq_ok h).1 ends_boot_balanced
  | step htallied hrun ih =>
    obtain ⟨pins, hsound, hsize⟩ := htallied.reachable.sound
    exact ih.moved ((ends_operate_moved .any hsound hsize).of_run hrun)

/-- The store refuses the second page written out, and does not deliver the first page read back.
    Process 1 exits with a page in a frame, which is pinned, and two in slots. -/
theorem Tallied.balanced_of_refusals : ∃ (t : Tally) (k : Kernel MemoryStore), Tallied t k ∧
    t = { served := 6, failed := 2, evicted := 4, saved := 3, released := 1, freed := 2 } ∧
    k.stats = { freeFrames := 0, ownedFrames := 1, pinnedFrames := 1, swapSlotsInUse := 0
                swapReads := 1, swapWrites := 3, pageFaults := 8, evictions := 4 } ∧
    Balanced t k := by
  have hrun : (boot 4 { physPages := 2, tlbSize := 2, stackPages := 4 }
      ({ failingWrites := [1], failingReads := [0] } : MemoryStore) [] [] >>= fun k =>
        (fun r => (r.1, r.2.stats)) <$> Kernel.tallying [.request (.spawn []), .request (.spawn []),
          .request (.process 1 (.loadByte 12)),
          .request (.process 1 (.writeBytes 2 [1, 2, 3, 4, 5, 6, 7])),
          .request (.process 1 (.loadByte 12)), .request (.process 1 (.loadByte 0)),
          .request (.process 1 (.loadByte 0)), .pin 1 0 true,
          .request (.process 2 (.storeByte 0 9)), .request (.process 1 .exit)] ({}, k)).toOption =
      some ({ served := 6, failed := 2, evicted := 4, saved := 3, released := 1, freed := 2 },
        { freeFrames := 0, ownedFrames := 1, pinnedFrames := 1, swapSlotsInUse := 0
          swapReads := 1, swapWrites := 3, pageFaults := 8, evictions := 4 }) := by
    decide +kernel
  obtain ⟨k₀, hboot, hrun⟩ := Checked.exists_of_toOption_bind hrun
  rw [← bind_pure_comp] at hrun
  obtain ⟨⟨t, k⟩, hrun, hshows⟩ := Checked.exists_of_toOption_bind hrun
  have hall := Option.some.inj hshows
  simp only [Prod.mk.injEq] at hall
  have htallied : Tallied t k := Tallied.tallying (.fresh hboot) hrun
  exact ⟨t, k, htallied, hall.1, hall.2, Tallied.balanced htallied⟩

end Operations

end DemandPaging.Kernel
