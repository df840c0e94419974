/-
  Requests on the machine without a TLB.

  `directPerform` carries out a request there, and `follows_perform` says that it does to the
  settled kernel what `perform` does to the kernel.  Leaving the processor has nothing to do
  there, so that a run may leave it out (`follows_run`).
-/
import DemandPaging.Proofs.Direct
import DemandPaging.Proofs.Reachable
import DemandPaging.Proofs.SettledCopy

namespace DemandPaging

variable {copies : List Mapping}

/-- Whether a request is only that a process leaves the processor. -/
def Request.isSave : Request → Bool
  | .process _ .saveState => true
  | _ => false

/-- The answers to the requests that are not saves. -/
def answers {α : Type} : List Request → List α → List α
  | request :: requests, reply :: replies =>
    if request.isSave then answers requests replies else reply :: answers requests replies
  | _, _ => []

/-! ## Making and ending processes -/

theorem PageTable.map_ofFlags {flags : List Bool} :
    (ofFlags flags).map (.settle copies) = ofFlags flags := by
  refine congrArg PageTable.mk (Row.eq_of_shape (by simp [ofFlags]) (List.ext_getElem? fun v => ?_))
  rw [Row.toList_map, List.getElem?_map, ofFlags, Row.toList_ofList, List.getElem?_mapIdx]
  cases flags[v]? <;> rfl

namespace Kernel

/-- What a process holds, with the frames settled. -/
def Holdings.settle (copies : List Mapping) (held : Holdings) : Holdings :=
  { held with frames := held.frames.absorb copies }

theorem releasePage_settle {held : Holdings} {e : PageEntry} :
    releasePage (held.settle copies) (e.settle copies) =
      Holdings.settle copies <$> releasePage held e := by
  unfold releasePage
  rw [PageEntry.state_settle]
  cases e.state with
  | absent => rfl
  | resident f =>
    dsimp only [Holdings.settle]
    rw [FrameTable.freeOrDefer_absorb, map_bind, bind_map_left]
    refine congrArg _ (funext fun frames => ?_)
    rw [map_bind]
    rfl
  | swapped s =>
    dsimp only [Holdings.settle]
    rw [map_bind]
    refine congrArg _ (funext fun slots => ?_)
    rw [map_bind]
    rfl

/-- The induction is on the pages. -/
theorem releasePages_settle {table : PageTable} (held : Holdings) :
    releasePages (table.map (.settle copies)) (held.settle copies) =
      Holdings.settle copies <$> releasePages table held := by
  unfold releasePages PageTable.map
  rw [Row.toList_map]
  induction table.entries.toList generalizing held with
  | nil => rfl
  | cons e rest ih =>
    rw [List.map_cons, List.foldlM_cons, List.foldlM_cons, releasePage_settle, map_bind,
      bind_map_left]
    exact congrArg (releasePage held e >>= ·) (funext ih)

variable {σ τ α : Type} {t : σ → τ} {pins : Frame → Nat} {k k' : Kernel σ} {pid : Pid}
  {sections : List SectionId}

/-- Ends a process.  The bits of its pages are gone with their content. -/
def directExit (pid : Pid) : KernelM σ Unit := do
  let process ← process pid
  unless process.exited do
    let k ← get
    let held ← releasePages process.table { frames := k.residency.frames, slots := k.swap.slots }
    set { k with
      residency := (k.residency.finish pid held.frames).settle []
      swap := { k.swap with slots := (held.slots.deallocateOwnedBy pid).2 } }

theorem follows_spawn :
    Tracks (settle t) id (spawn (σ := σ) sections) (spawn sections) k := by
  have hexe : (k.settle t).executable sections = id <$> k.executable sections :=
    (id_map (k.executable sections)).symm
  unfold spawn
  refine follows_get (follows_lift hexe fun exe _ => ?_)
  refine follows_ofExcept_bind (w := id) (congrFun Except.map_id _).symm fun _ _ => ?_
  refine follows_ofAttempt_bind fun _ htiled => ?_
  refine follows_lift (id_map _).symm fun imagePages hpages => ?_
  refine follows_lift (id_map _).symm fun numPages hroom => ?_
  obtain ⟨rfl, -⟩ := addBelow_eq_ok_iff.1 hroom
  obtain ⟨flags, -, -, hmark⟩ :=
    Executable.flagPages_create k.config.stackPages htiled hpages
  refine follows_ofAttempt_bind fun table htable => ?_
  obtain rfl := Except.ok.inj (Except.ok.inj (hmark.symm.trans htable))
  let p : Process :=
    { table := .ofFlags (flags ++ List.replicate k.config.stackPages false)
      executable := sections, numPages := imagePages + k.config.stackPages }
  have hp : p.map (.settle k.tlb.mappings) = p :=
    congrArg (fun table => { p with table }) PageTable.map_ofFlags
  refine follows_onResidency_bind ?_ fun r _ => follows_pure Residency.nextPid_settle
  have hadd : (k.residency.settle k.tlb.mappings).addProcess (p.map (.settle k.tlb.mappings)) =
      _ := Residency.addProcess_settle
  rw [hp] at hadd
  exact congrArg Except.ok hadd

/-- What ending a process does to settled frames and pages. -/
theorem finish_settle {r : Residency} {table : FrameTable} :
    ((r.settle copies).finish pid (table.absorb copies)).settle [] =
      (r.finish pid table).settle copies := by
  have hended : ∀ (p : Process) (others more : List Mapping),
      (p.map (.settle others)).ended.map (.settle []) = p.ended.map (.settle more) := by
    intro p others more
    simp only [Process.ended, Process.map, PageTable.map, PageTable.discarded, Row.map_map]
    congr 2
    exact Row.map_congr fun e _ => PageEntry.settle_discarded
  have hleft : ((r.settle copies).settle []).updateProcess pid
      (fun p => p.ended.map (.settle [])) = ((r.settle copies).updateProcess pid _).settle [] :=
    Residency.updateProcess_settle (c := Process.ended) fun p _ => hended p [] []
  have hright : (r.settle copies).updateProcess pid (fun p => p.ended.map (.settle [])) =
      (r.updateProcess pid _).settle copies :=
    Residency.updateProcess_settle (c := Process.ended) fun p _ => hended p copies copies
  rw [Residency.settle_settle] at hleft
  have hframes : (table.absorb copies).absorb [] = table.absorb copies := by
    rw [FrameTable.absorb, FrameInfo.absorb_nil, Row.map_id]
  have hprocesses := hleft.symm.trans hright
  calc ((r.settle copies).finish pid (table.absorb copies)).settle []
    _ = { ((r.settle copies).updateProcess pid Process.ended).settle [] with
          frames := (table.absorb copies).absorb [] } := rfl
    _ = { (r.updateProcess pid Process.ended).settle copies with
          frames := table.absorb copies } := by rw [hprocesses, hframes]
    _ = (r.finish pid table).settle copies := rfl

theorem Sound.settle_finished {p : Process} {r : Residency} {slots : SlotTable}
    (h : k.Sound pins none) (hp : k.residency.process? pid = some p) (hlive : p.exited = false)
    (hrel : Residency.Released pins pid 0 p.table.entries.toList.length k.residency k.swap.slots r
      slots) :
    (k.residency.finish pid r.frames).settle k.tlb.mappings =
      (k.residency.finish pid r.frames).settle (k.tlb.takeOwnedBy pid).2.mappings :=
  (h.finished hp hlive hrel).frames.settle_congr fun he hs =>
    ⟨congrArg _ (h.bit_finished (b := (·.used)) he hs),
      congrArg _ (h.bit_finished (b := (·.dirty)) he hs)⟩

theorem run_directExit_live {p : Process} (hp : k.residency.process? pid = some p)
    (hlive : p.exited = false) :
    (directExit (σ := σ) pid).run.run k = (fun held => (.ok (), { k with
        residency := (k.residency.finish pid held.frames).settle []
        swap := { k.swap with slots := (held.slots.deallocateOwnedBy pid).2 } })) <$>
      releasePages p.table { frames := k.residency.frames, slots := k.swap.slots } := by
  refine run_eq_map_of_ends fun V Q => ?_
  simp only [directExit, process, ends_bind, ends_get, hp, ends_pure, hlive, Bool.false_eq_true,
    if_false, ends_lift, ends_set]

/-- Both sides stop where the pages cannot be counted. -/
theorem follows_exit (h : k.Sound pins none) :
    Tracks (settle t) id (exit (σ := σ) pid) (directExit pid) k := by
  have hprocess : (k.settle t).residency.process? pid = _ := Residency.process?_settle
  have hreleased : ∀ p : Process, releasePages (p.map (.settle k.tlb.mappings)).table
      { frames := (k.settle t).residency.frames, slots := (k.settle t).swap.slots } =
        Holdings.settle k.tlb.mappings <$> releasePages p.table
          { frames := k.residency.frames, slots := k.swap.slots } :=
    fun p => releasePages_settle { frames := k.residency.frames, slots := k.swap.slots }
  by_cases hcount : Exits (fun _ => False) pid k
  · obtain ⟨r, k', hrun, hexit⟩ := ends_iff_eq_ok.1
      (ends_exit h hcount (Q := Exited pins pid k) fun _ _ hexit => hexit)
    refine follows_of_run hrun ?_
    cases hexit with
    | missing hp =>
      simp only [directExit, process, ends_bind, ends_get, hprocess, hp, Option.map_none]
      exact ⟨rfl, rfl⟩
    | @again p hp hdead =>
      have hdead' : (p.map (.settle k.tlb.mappings)).exited = true := hdead
      simp only [directExit, process, ends_bind, ends_get, hprocess, hp, Option.map_some, ends_pure,
        hdead']
      exact ⟨rfl, rfl⟩
    | @ended p r slots hp hlive hpages hrel =>
      rw [hp, Option.map_some] at hprocess
      unfold Ends
      rw [run_directExit_live hprocess hlive, hreleased, hpages]
      refine ⟨rfl, ?_⟩
      have hr : ((k.residency.settle k.tlb.mappings).finish pid
          (r.frames.absorb k.tlb.mappings)).settle [] = _ :=
        finish_settle.trans (h.settle_finished hp hlive hrel)
      exact congrArg (fun r => { k.settle t with
        residency := r
        swap := { k.swap.mapStore t with slots := (slots.deallocateOwnedBy pid).2 } }) hr
  · obtain ⟨p, hp, hlive, hmany⟩ : ∃ p, k.residency.process? pid = some p ∧ p.exited = false ∧
        ¬ p.Releasable := by simpa [Exits] using hcount
    rw [hp, Option.map_some] at hprocess
    obtain ⟨r, slots, hrun, -⟩ := h.releasePages_eq hp hlive
    unfold Tracks Follows
    rw [run_directExit_live hprocess hlive, hreleased, run_exit_live hp hlive, hrun,
      counted_of_not_releasable hmany]
    rfl

/-! ## Requests -/

section Requests

variable [BackingStore σ] [BackingStore τ]

/-- Carries out an operation of a process that is there, without a TLB. -/
def directPerformFor (pid : Pid) : ProcessRequest → KernelM σ Reply
  | .loadByte vaddr => .byte <$> do
    let address ← directAddress pid vaddr.toNat false
    reading (·.readByte address)
  | .storeByte vaddr b => (fun () => .done) <$> do
    let address ← directAddress pid vaddr.toNat true
    writing (·.writeByte address b)
  | .loadWord vaddr => .word <$> do
    checkAligned vaddr.toNat
    let address ← directAddress pid vaddr.toNat false
    reading (·.readWord address)
  | .storeWord vaddr w => (fun () => .done) <$> do
    checkAligned vaddr.toNat
    let address ← directAddress pid vaddr.toNat true
    writing (·.writeWord address w)
  | .handleMiss vaddr => (fun () => .done) <$> do
    let size ← divisor (← get).pageSize
    let _ ← resolve pid (pageOf size vaddr.toNat)
    return ()
  | .saveState => return .done
  | .exit => (fun () => .done) <$> directExit pid
  | .drop => (fun () => .done) <$> do
    directExit pid
    onResidency fun r => .ok (r.dropProcess pid)
  | request => performFor pid request

/-- Carries out a request without a TLB. -/
def directPerform : Request → KernelM σ Reply
  | .spawn sections => perform (.spawn sections)
  | .process pid request => do
    match (← get).residency.process? pid with
    | some _ => directPerformFor pid request
    | none => return if request = .drop then .done else .noProcess

omit [BackingStore σ] [BackingStore τ] in
theorem follows_checkAligned {vaddr : Nat} :
    Tracks (settle t) id (checkAligned (σ := σ) vaddr) (checkAligned vaddr) k := by
  unfold checkAligned
  exact follows_ite (fun _ => follows_throw) fun _ => follows_pure rfl

omit [BackingStore σ] [BackingStore τ] in
theorem checkAligned_eq_ok {vaddr : Nat} {a : Unit}
    (h : (checkAligned (σ := σ) vaddr).run.run k = .ok (.ok a, k')) : k' = k := by
  have hends : Ends (fun _ => True) (checkAligned (σ := σ) vaddr).run k fun _ k' => k' = k :=
    checkAligned_ends (fun _ => rfl) rfl
  exact hends.of_run h

theorem follows_performFor {request : ProcessRequest} (ht : Carries t) (h : k.Sound pins none)
    (hsize : 0 < k.tlb.slots.length) :
    Tracks (settle t) id (performFor pid request) (directPerformFor pid request) k := by
  cases request with
  | loadByte vaddr =>
    refine follows_map (w := id) (follows_bind (follows_userAddress ht h hsize) ?_) fun _ => rfl
    exact fun address _ _ => follows_reading
  | storeByte vaddr b =>
    refine follows_map (w := id) (follows_bind (follows_userAddress ht h hsize) ?_) fun _ => rfl
    exact fun address _ _ => follows_writing
  | loadWord vaddr =>
    refine follows_map (w := id) (follows_bind follows_checkAligned fun _ k₁ hrun => ?_) fun _ => rfl
    obtain rfl := checkAligned_eq_ok hrun
    exact follows_bind (follows_userAddress ht h hsize) fun address _ _ => follows_reading
  | storeWord vaddr w =>
    refine follows_map (w := id) (follows_bind follows_checkAligned fun _ k₁ hrun => ?_) fun _ => rfl
    obtain rfl := checkAligned_eq_ok hrun
    exact follows_bind (follows_userAddress ht h hsize) fun address _ _ => follows_writing
  | readBytes vaddr buffer =>
    refine follows_bind (follows_exceptT_lift (follows_readBytes ht h)) fun r k₁ _ => ?_
    obtain ⟨result, bytes⟩ := r
    refine follows_bind (w := id) (follows_ofExcept ?_) fun n _ _ => follows_pure rfl
    cases result <;> rfl
  | writeBytes vaddr data => exact follows_map (follows_writeBytes ht h) fun _ => rfl
  | handleMiss vaddr =>
    exact follows_map (w := id) (follows_get_right (follows_handleMiss ht h hsize)) fun _ => rfl
  | saveState =>
    have hflush : Tracks (settle t) id ((fun () => Reply.done) <$> flush)
        ((fun () => Reply.done) <$> pure ()) k := follows_map (follows_flush h) fun _ => rfl
    exact hflush.congr rfl rfl
  | restoreState => exact follows_pure rfl
  | exit => exact follows_map (follows_exit h) fun _ => rfl
  | drop =>
    refine follows_map (w := id) (follows_bind (follows_exit h) fun _ k₁ _ => ?_) fun _ => rfl
    exact follows_onResidency (congrArg Except.ok Residency.dropProcess_settle)

theorem follows_perform {request : Request} (ht : Carries t) (h : k.Sound pins none)
    (hsize : 0 < k.tlb.slots.length) :
    Tracks (settle t) id (perform request) (directPerform request) k := by
  cases request with
  | spawn sections =>
    refine follows_bind follows_spawn fun pid k₁ _ => ?_
    exact follows_bind follows_process fun p k₂ _ => follows_pure rfl
  | process pid request =>
    refine follows_get ?_
    have hprocess : (k.settle t).residency.process? pid = _ := Residency.process?_settle
    rw [hprocess]
    cases k.residency.process? pid with
    | none => exact follows_pure rfl
    | some p => exact follows_performFor ht h hsize

/-! ## Runs -/

/-- Carries out requests without a TLB, one after another. -/
def directRun : List Request → StateT (Kernel σ) Checked (List (Except PagingError Reply))
  | [] => return []
  | r :: rest => do
    let reply ← (directPerform r).run
    return reply :: (← directRun rest)

/-- Leaving the processor is not seen where there is no TLB. -/
theorem follows_saveState {request : Request} (hsave : request.isSave = true) (ht : Carries t)
    (h : k.Sound pins none) (hsize : 0 < k.tlb.slots.length) :
    Follows (settle t) (fun _ => ()) (perform request).run (pure ()) k := by
  have hdirect : ∃ reply, (directPerform request).run.run (k.settle t) =
      .ok (.ok reply, k.settle t) := by
    obtain _ | ⟨pid, _ | _ | _ | _ | _ | _ | _ | _⟩ := request <;> try cases hsave
    have hget : (directPerform (.process pid .saveState)).run.run (k.settle t) =
        ((match (k.settle t).residency.process? pid with
          | some _ => pure .done
          | none => pure .noProcess : KernelM τ Reply)).run.run (k.settle t) := rfl
    rw [hget]
    cases (k.settle t).residency.process? pid with
    | none => exact ⟨_, rfl⟩
    | some p => exact ⟨_, rfl⟩
  obtain ⟨reply, hrun⟩ := hdirect
  have hfollows : Tracks (settle t) id (perform request) (directPerform request) k :=
    follows_perform ht h hsize
  unfold Tracks Follows at *
  rw [hrun] at hfollows
  have hmap := congrArg (fun c : Checked _ => (fun r => ((), r.2)) <$> c) hfollows
  rwa [Functor.map_map] at hmap

/-- The induction is on the requests; a save moves on in the run with a TLB only. -/
theorem follows_run {requests : List Request} (ht : Carries t) (h : k.Sound pins none)
    (hsize : 0 < k.tlb.slots.length) :
    Follows (settle t) (answers requests) (Kernel.run requests)
      (directRun (requests.filter (!·.isSave))) k := by
  induction requests generalizing k with
  | nil => rfl
  | cons request rest ih =>
    have hrest : ∀ reply k', (perform request).run.run k = .ok (reply, k') →
        Follows (settle t) (answers rest) (Kernel.run rest)
          (directRun (rest.filter (!·.isSave))) k' := by
      intro reply k' hrun
      have hdone : Ends (fun _ => True) (perform request).run k fun _ k' => Continues pins k k' :=
        ends_perform .any h hsize (fun _ => .inr trivial) (fun _ _ => .any) fun _ _ =>
          Checked.ends_true fun _ _ => trivial
      have hnext := hdone.of_run hrun
      exact ih hnext.sound (hnext.same.tlbSize ▸ hsize)
    cases hsave : request.isSave with
    | true =>
      have hskip : (request :: rest).filter (!·.isSave) = rest.filter (!·.isSave) := by
        simp [hsave]
      have hnothing : directRun (σ := τ) (rest.filter (!·.isSave)) =
          pure () >>= fun _ => directRun (rest.filter (!·.isSave)) >>= pure := by
        rw [pure_bind, bind_pure]
      rw [hskip, hnothing]
      have hlast : ∀ (reply : Except PagingError Reply) replies,
          answers rest replies = answers (request :: rest) (reply :: replies) :=
        fun _ _ => (if_pos hsave).symm
      refine step_follows_bind (follows_saveState hsave ht h hsize) fun reply k' hrun => ?_
      refine step_follows_bind (hrest reply k' hrun) fun replies k'' _ => ?_
      rw [hlast reply]
      exact step_follows_pure
    | false =>
      have hkeep : (request :: rest).filter (!·.isSave) =
          request :: rest.filter (!·.isSave) := by simp [hsave]
      have hlast : ∀ (reply : Except PagingError Reply) replies,
          reply.map id :: answers rest replies = answers (request :: rest) (reply :: replies) := by
        intro reply replies
        rw [answers, hsave]
        cases reply <;> rfl
      rw [hkeep]
      refine step_follows_bind (follows_perform ht h hsize) fun reply k' hrun => ?_
      refine step_follows_bind (hrest reply k' hrun) fun replies k'' _ => ?_
      rw [hlast reply]
      exact step_follows_pure

end Requests

end Kernel

end DemandPaging
