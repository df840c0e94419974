/-
  Pages out of reach.

  Addresses are 32 bits wide, and a process may have more pages than they reach.  Nobody brings
  such a page in: a request resolves the pages of its addresses, and all else that happens to
  pages happens to those that are in frames.  So pages out of reach stay absent (`Confined`), and
  a process has as many pages in frames and in slots at most as there are in reach.

  * `ends_perform_confined`: every request keeps the kernel confined;
  * `Confined.releasable`: pages of four bytes or more can all be counted.
-/
import DemandPaging.Proofs.Balance

namespace DemandPaging.Kernel

variable {σ : Type} {c : Conduct σ} {pins : Frame → Nat} {k k' k₁ : Kernel σ} {pid q : Pid}
  {v w : Vpn} {e : PageEntry} {p : Process}

/-! ## Pages that stay absent -/

/-- The page is absent, if there is one. -/
def Absent (k : Kernel σ) (q : Pid) (w : Vpn) : Prop :=
  ∀ state, k.state? q w = some state → state = .absent

theorem Absent.of_eq (h : k.Absent q w) (hstate : k'.state? q w = k.state? q w) : k'.Absent q w :=
  fun state hs => h state (hstate.symm.trans hs)

/-- A page in no frame is not touched by what leaves such pages where they are. -/
theorem Absent.of_elsewhere (h : k.Absent q w) (hkeeps : k.Keeps k')
    (helse : ∀ {q w e}, k.residency.page? q w = some e → (∀ g, e.state ≠ .resident g) →
      k'.residency.page? q w = some e) : k'.Absent q w := by
  refine h.of_eq ?_
  rw [state?, state?]
  cases he : k.residency.page? q w with
  | none => rw [hkeeps.page?_eq_none he]
  | some e =>
    have habsent : e.state = .absent := h _ (congrArg (Option.map _) he)
    rw [helse he (by simp [habsent])]

/-- A fault brings in its own page and no other. -/
theorem PagedIn.absent {r : Except PagingError Mapping} (hin : PagedIn c pins pid p v e k r k')
    (h : k.Sound pins none) (he : k.residency.page? pid v = some e)
    (hs : ∀ g, e.state ≠ .resident g) (hother : ¬ (q = pid ∧ w = v)) (habsent : k.Absent q w) :
    k'.Absent q w := by
  have hfault : k.faulting.Absent q w := habsent
  cases hin with
  | starved hall =>
    have hdone := hall.undisturbed h.faulting
    exact hfault.of_elsewhere hdone.keeps hdone.elsewhere
  | loaded hall hfetch _ =>
    obtain ⟨-, -, -, hkeeps, -, -, helse⟩ := hall.gained h.faulting
    obtain ⟨swap, sections, rfl, -⟩ := hfetch.rest
    refine (hfault.of_elsewhere hkeeps helse).of_eq (congrArg (Option.map _) ?_)
    rw [withPage, Residency.page?_link (helse he hs), if_neg hother]
  | failed hall hfetch =>
    obtain ⟨-, -, -, hkeeps, -, -, helse⟩ := hall.gained h.faulting
    obtain ⟨swap, sections, rfl, -⟩ := hfetch.rest
    exact (hfault.of_elsewhere hkeeps helse).of_eq (congrArg (Option.map _) Residency.page?_frames)

theorem Visited.absent (hvisit : Visited c pins pid v k k') (h : k.Sound pins none)
    (hother : ¬ (q = pid ∧ w = v)) (habsent : k.Absent q w) : k'.Absent q w := by
  obtain ⟨r, k₁, hres, hstill⟩ := hvisit
  refine Absent.of_eq ?_ (hstill.states q w)
  cases hres with
  | exited => exact habsent
  | outside => exact habsent
  | there => exact habsent
  | faulted _ _ he hs hin => exact hin.absent h he hs hother habsent

/-! ## Confined kernels -/

/-- Pages that no address reaches are absent. -/
def Confined (k : Kernel σ) : Prop :=
  ∀ q w, pageOf k.memory.pageSize (addressLimit - 1) < w → k.Absent q w

theorem Confined.of_states (h : k.Confined) (hsize : k'.memory.pageSize = k.memory.pageSize)
    (hstates : ∀ q w, k'.state? q w = k.state? q w) : k'.Confined :=
  fun q w hout => (h q w (hsize ▸ hout)).of_eq (hstates q w)

/-- A visit to a page in reach brings in no page out of reach. -/
theorem Confined.visited (h : k.Confined) (hk : k.Sound pins none)
    (hvisit : Visited c pins pid v k k') (hsize : k'.memory.pageSize = k.memory.pageSize)
    (hv : v ≤ pageOf k.memory.pageSize (addressLimit - 1)) : k'.Confined := by
  intro q w hout
  rw [hsize] at hout
  refine hvisit.absent hk ?_ (h q w hout)
  rintro ⟨-, rfl⟩
  exact Nat.not_lt.2 hv hout

theorem Fresh.confined {pageSize : Nat} {config : Config} {sections : List Section}
    (h : Fresh pageSize config sections k) : k.Confined := by
  intro q w _ state hstate
  rw [state?, Residency.page?_of_nil h.empty] at hstate
  cases hstate

/-- A new process has no page anywhere. -/
theorem Spawned.confined {sections : List SectionId} {r : Except PagingError Pid}
    (hspawn : Spawned sections k r k') (h : k.Confined) : k'.Confined := by
  cases hspawn with
  | refused => exact h
  | made =>
    intro q w hout state hstate
    obtain ⟨e, he, rfl⟩ := Option.map_eq_some_iff.1 hstate
    rcases Residency.page?_addProcess he with hold | ⟨-, -, hnew⟩
    · exact h q w hout _ (congrArg (Option.map _) hold)
    · rw [hnew]

theorem Exited.confined {r : Except PagingError Unit} (hexit : Exited pins pid k r k')
    (h : k.Confined) : k'.Confined := by
  cases hexit with
  | missing => exact h
  | again => exact h
  | ended =>
    intro q w hout state hstate
    obtain ⟨e, he, rfl⟩ := Option.map_eq_some_iff.1 hstate
    have hpage := Residency.page?_finish.symm.trans he
    split at hpage
    · cases hpage
    · exact h q w hout _ (congrArg (Option.map _) hpage)

/-! ## Requests -/

section Requests

variable [BackingStore σ]

/-- The induction is on the chunks. -/
theorem ends_readChunks_confined {list : List Chunk} {pieces : List Bytes}
    (hc : Tolerated c (fun _ => True) k) (hk : k.Sound pins none) (h : k.Confined)
    (hlist : ∀ chunk ∈ list, chunk.offset + chunk.amount ≤ k.memory.pageSize ∧
      chunk.vpn ≤ pageOf k.memory.pageSize (addressLimit - 1)) :
    Ends (fun _ => True) (readChunks pid list pieces) k fun _ k' => k'.Confined := by
  induction list generalizing k pieces with
  | nil => exact h
  | cons chunk rest ih =>
    obtain ⟨hfits, hreach⟩ := hlist chunk List.mem_cons_self
    have hcopy : Ends (fun _ => True)
        (copyChunk pid false chunk fun address => reading (·.read address chunk.amount)).run k
        (Copied c pins pid chunk.vpn false (ReadFrom chunk) k) :=
      ends_copyChunk hc hk (fun _ _ => .inr trivial) (moves_read hfits) fun _ _ hcopied => hcopied
    unfold readChunks
    rw [step_ends_bind]
    refine hcopy.imp fun r k₁ hcopied => ?_
    have hstays := hcopied.stays_of_read hk
    have hnext := h.visited hk (hcopied.visited hk) hstays.keeps.pageSize hreach
    cases r with
    | error error => exact hnext
    | ok bytes =>
      refine ih (hc.of_keeps hstays.keeps) hstays.sound hnext fun chunk hmem => ?_
      rw [hstays.keeps.pageSize]
      exact hlist chunk (List.mem_cons_of_mem _ hmem)

theorem ends_writeChunks_confined {list : List Chunk} {data : Bytes} {moved : Nat}
    (hc : Tolerated c (fun _ => True) k) (hk : k.Sound pins none) (h : k.Confined)
    (hlist : ∀ chunk ∈ list, chunk.offset + chunk.amount ≤ k.memory.pageSize ∧
      chunk.vpn ≤ pageOf k.memory.pageSize (addressLimit - 1)) :
    Ends (fun _ => True) (writeChunks pid list data moved).run k fun _ k' => k'.Confined := by
  induction list generalizing k data moved with
  | nil => exact h
  | cons chunk rest ih =>
    obtain ⟨hfits, hreach⟩ := hlist chunk List.mem_cons_self
    have htake : (data.take chunk.amount).length ≤ chunk.amount := List.length_take_le _ _
    have hcopy : Ends (fun _ => True) (copyChunk pid true chunk fun address =>
        writing (·.write address (data.take chunk.amount))).run k
        (Copied c pins pid chunk.vpn true (WrittenTo chunk (data.take chunk.amount)) k) :=
      ends_copyChunk hc hk (fun _ _ => .inr trivial) (moves_write hfits htake)
        fun _ _ hcopied => hcopied
    unfold writeChunks
    rw [ends_bind]
    refine hcopy.imp fun r k₁ hcopied => ?_
    have hstays := hcopied.stays_of_write hk (by omega)
    have hnext := h.visited hk (hcopied.visited hk) hstays.keeps.pageSize hreach
    cases r with
    | error error => exact hnext
    | ok _ =>
      refine ih (hc.of_keeps hstays.keeps) hstays.sound hnext fun chunk hmem => ?_
      rw [hstays.keeps.pageSize]
      exact hlist chunk (List.mem_cons_of_mem _ hmem)

theorem ends_readBytes_confined {vaddr : Nat} {buffer : Bytes} (hc : Tolerated c (fun _ => True) k)
    (hk : k.Sound pins none) (h : k.Confined) :
    Ends (fun _ => True) (readBytes pid vaddr buffer) k fun _ k' => k'.Confined := by
  unfold readBytes
  rw [step_ends_bind]
  refine ends_liveProcess (fun _ => h) fun p _ _ => ?_
  dsimp only
  rw [step_ends_bind, step_ends_get, step_ends_bind, step_ends_lift]
  refine hk.ends_cut (.inr trivial) ?_
  rw [step_ends_bind]
  exact (ends_readChunks_confined hc hk h fun _ hmem =>
    (chunk_within hk.memory.pageSize_pos hmem).2).imp fun _ _ hdone => hdone

theorem ends_writeBytes_confined {vaddr : Nat} {data : Bytes} (hc : Tolerated c (fun _ => True) k)
    (hk : k.Sound pins none) (h : k.Confined) :
    Ends (fun _ => True) (writeBytes pid vaddr data).run k fun _ k' => k'.Confined := by
  unfold writeBytes
  rw [ends_bind]
  refine ends_liveProcess (fun _ => h) fun p _ _ => ?_
  dsimp only
  rw [ends_bind, ends_get]
  dsimp only
  rw [ends_bind, ends_lift]
  refine hk.ends_cut (.inr trivial) ?_
  exact ends_writeChunks_confined hc hk h fun _ hmem =>
    (chunk_within hk.memory.pageSize_pos hmem).2

/-- Addresses name pages in reach only. -/
theorem ends_performFor_confined {request : ProcessRequest} (hc : Tolerated c (fun _ => True) k)
    (hk : k.Sound pins none) (hsize : 0 < k.tlb.slots.length) (h : k.Confined) :
    Ends (fun _ => True) (performFor pid request).run k fun _ k' => k'.Confined := by
  have hserves : Ends (fun _ => True) (performFor pid request).run k fun _ k' => Serves pins k k' :=
    ends_performFor hc hk hsize (fun _ => .inr trivial) fun _ => .any
  have hinstr : ∀ {α : Type} {act : Nat → KernelM σ α} {vaddr : UInt32} {write : Bool},
      (∀ address k₁, Ends (fun _ => True) (act address).run k₁ fun _ k' => Still k₁ k') →
      Ends (fun _ => True) (userAddress pid vaddr.toNat write >>= act).run k fun _ k' =>
        k'.memory.pageSize = k.memory.pageSize → k'.Confined := fun hact =>
    (ends_instruction_visited hc hk hsize hact).imp fun _ _ hvisited hpages =>
      h.visited hk hvisited hpages (pageOf_le (UInt32.toNat_lt _))
  have hword : ∀ {α : Type} {act : Nat → KernelM σ α} {vaddr : UInt32} {write : Bool},
      (∀ address k₁, Ends (fun _ => True) (act address).run k₁ fun _ k' => Still k₁ k') →
      Ends (fun _ => True) (do checkAligned vaddr.toNat
                               act (← userAddress pid vaddr.toNat write)).run k fun _ k' =>
        k'.memory.pageSize = k.memory.pageSize → k'.Confined := fun hact =>
    ends_bind.2 (checkAligned_ends (fun _ => hinstr hact) fun _ => h)
  suffices hall : Ends (fun _ => True) (performFor pid request).run k fun _ k' =>
      k'.memory.pageSize = k.memory.pageSize → k'.Confined from
    (hserves.and hall).imp fun _ _ hdone => hdone.2 hdone.1.same.pageSize
  cases request with
  | loadByte vaddr => exact ends_map.2 (hinstr fun _ _ => ends_reading_still)
  | storeByte vaddr b => exact ends_map.2 (hinstr fun _ _ => ends_writing_still)
  | loadWord vaddr => exact ends_map.2 (hword fun _ _ => ends_reading_still)
  | storeWord vaddr w => exact ends_map.2 (hword fun _ _ => ends_writing_still)
  | readBytes vaddr buffer =>
    refine ends_bind.2 (ends_exceptT_lift.2 ((ends_readBytes_confined hc hk h).imp ?_))
    rintro ⟨result, bytes⟩ k' hdone
    cases result <;> exact fun _ => hdone
  | writeBytes vaddr data =>
    exact ends_map.2 ((ends_writeBytes_confined hc hk h).imp fun _ _ hdone _ => hdone)
  | handleMiss vaddr =>
    refine ends_map.2 (ends_handleMiss hc hk hsize fun _ _ hserved hpages => ?_)
    exact h.visited hk (hserved.visited hk) hpages (pageOf_le (UInt32.toNat_lt _))
  | saveState =>
    refine ends_map.2 ((ends_flush hk).2 fun hpages => ?_)
    exact h.of_states hpages (hk.absorbed_still hk.flushed).states
  | restoreState => exact fun _ => h
  | exit => exact ends_map.2 (ends_exit hk .any fun _ _ hexit _ => hexit.confined h)
  | drop =>
    refine ends_map.2 (ends_drop hk .any (fun _ _ => h) fun k₁ hexit _ => ?_)
    have hgone := hexit.gone hk
    exact (hexit.confined h).of_states rfl fun q w =>
      congrArg (Option.map _) (Residency.page?_dropProcess hgone)

theorem ends_perform_confined {request : Request} (hc : Tolerated c (fun _ => True) k)
    (hk : k.Sound pins none) (hsize : 0 < k.tlb.slots.length) (h : k.Confined) :
    Ends (fun _ => True) (perform request).run k fun _ k' => k'.Confined := by
  cases request with
  | spawn sections =>
    refine ends_bind.2 (ends_spawn.imp fun r k' hspawn => ?_)
    have hdone := hspawn.confined h
    cases r with
    | error e => exact hdone
    | ok pid =>
      simp only [process, ends_bind, ends_get]
      cases k'.residency.process? pid <;> exact hdone
  | process pid request =>
    simp only [perform, ends_bind, ends_get]
    cases k.residency.process? pid with
    | none => exact h
    | some p => exact ends_performFor_confined hc hk hsize h

end Requests

/-! ## Counting what a process gives back -/

/-- Where nothing behind the first `n` cells counts, `n` are counted at most. -/
theorem countP_le_of_forall {α : Type} {l : List α} {count : α → Bool} {n : Nat}
    (h : ∀ i a, n ≤ i → l[i]? = some a → count a = false) : l.countP count ≤ n := by
  have hrest : (l.drop n).countP count = 0 := by
    refine List.countP_eq_zero.2 fun a ha => ?_
    obtain ⟨i, hi⟩ := List.mem_iff_getElem?.1 ha
    rw [List.getElem?_drop] at hi
    rw [h _ a (Nat.le_add_right n i) hi]
    exact Bool.false_ne_true
  rw [← List.take_append_drop n l, List.countP_append, hrest, Nat.add_zero]
  exact Nat.le_trans List.countP_le_length (List.length_take_le n l)

/-- There are at most as many pages in frames, and in slots, as there are pages in reach. -/
theorem Confined.countP_le (h : k.Confined) (hp : k.residency.process? pid = some p)
    (hreg : p.registered = true) {count : PageEntry → Bool}
    (hcount : ∀ e, e.state = .absent → count e = false) :
    p.table.entries.countP count ≤ pageOf k.memory.pageSize (addressLimit - 1) + 1 := by
  rw [Row.countP_eq]
  refine countP_le_of_forall fun v e hout he => hcount e (h pid v hout e.state ?_)
  rw [state?, Residency.page?_of_process hp hreg, PageTable.find?_eq, he]
  rfl

/-- Of pages of four bytes or more there are fewer in reach than can be counted. -/
theorem Confined.releasable (h : k.Confined) (hk : k.Sound pins none)
    (hp : k.residency.process? pid = some p) (hlive : p.exited = false)
    (hsize : 4 ≤ k.memory.pageSize) : p.Releasable := by
  have hreach : pageOf k.memory.pageSize (addressLimit - 1) + 1 < limit31 :=
    calc pageOf k.memory.pageSize (addressLimit - 1) + 1
      _ ≤ pageOf 4 (addressLimit - 1) + 1 :=
        Nat.succ_le_succ (Nat.div_le_div_left hsize (by decide))
      _ < limit31 := by decide
  have hreg := hk.registered hp hlive
  refine ⟨Nat.lt_of_le_of_lt (h.countP_le hp hreg fun e habsent => ?_) hreach,
    Nat.lt_of_le_of_lt (h.countP_le hp hreg fun e habsent => ?_) hreach⟩
  · rw [PageEntry.isValid, PageEntry.frame, habsent]
    rfl
  · rw [habsent]
    rfl

theorem Confined.exits (h : k.Confined) (hk : k.Sound pins none) (hsize : 4 ≤ k.memory.pageSize)
    {V : Violation → Prop} : Exits V pid k :=
  fun _ hp hlive => .inl (h.releasable hk hp hlive hsize)

end DemandPaging.Kernel
