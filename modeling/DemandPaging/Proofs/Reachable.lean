/-
  Every reachable kernel is sound.

  An `Operation` is a request, or one of the two halves of a copy: taking a pin on a page and
  giving one back.  A kernel is `Reachable` when it comes from a fresh one by operations that
  return, with a value or with an error.  Each operation leaves a ledger of pins with which
  the kernel is sound (`ends_operate`), and so does every run (`Reachable.sound`).
-/
import DemandPaging.Kernel.Run
import DemandPaging.Proofs.Copy
import DemandPaging.Proofs.Lifecycle
import Mathlib.Algebra.GroupWithZero.Nat

namespace DemandPaging

/-- An operation on the kernel, pins included. -/
inductive Operation where
  | request (r : Request)
  /-- Takes a pin on the frame of a page. -/
  | pin (pid : Pid) (vpn : Vpn) (write : Bool)
  /-- Gives a pin of a frame back. -/
  | unpin (frame : Frame)
deriving DecidableEq, Repr

/-! ## Fresh kernels -/

/-- At first nothing is known about any frame, and all frames but surplus ones are in the pool. -/
theorem FrameTable.ends_create {n : Nat} : Checked.Ends (fun _ => True) (create n) fun table =>
    table.size = n ∧ (∀ f i, table.info? f = some i → i = {}) ∧
      ∀ f, f ∈ table.pool.toList ↔ f < table.usable := by
  simp only [create, Checked.ends_bind, Checked.ends_reserve, Checked.ends_pure, info?_eq, usable,
    size, Row.size_eq, Row.toList_ofList, List.length_replicate, FramePool.toList_create,
    List.mem_range, List.getElem?_replicate, implies_true, true_and, and_true]
  intro _ f i hi
  split at hi
  · exact (Option.some.inj hi).symm
  · cases hi

/-- Memory starts out formed. -/
theorem PhysicalMemory.ends_create {pageSize n : Nat} :
    Checked.Ends (fun _ => True) (create pageSize n) fun mem =>
      mem.Formed ∧ mem.pageSize = pageSize ∧ mem.numFrames = n ∧ 0 < n ∧
        (pageSize < limit32 ∨ pageSize % limit32 = 0) := by
  simp only [create, Checked.ends_bind, Checked.ends_require, Checked.ends_mulBelow,
    Checked.ends_reserve, Checked.ends_pure, decide_eq_true_eq, implies_true, and_true]
  intro hpower hpos _ hroom
  have hsize : 0 < pageSize := by
    rw [← hpower]
    exact Nat.pow_pos (by decide)
  rw [Nat.mul_one] at hroom
  exact ⟨⟨by simp [capacity], hroom, hsize⟩, trivial, trivial, hpos, hpower ▸ Kernel.divisible_two_pow⟩

theorem Tlb.ends_create {n : Nat} : Checked.Ends (fun _ => True) (create n) fun tlb =>
    0 < n ∧ tlb = ⟨List.replicate n {}⟩ := by
  simp only [create, Checked.ends_bind, Checked.ends_require, Checked.ends_reserve,
    Checked.ends_pure, decide_eq_true_eq, implies_true, and_true]
  exact fun hpos _ => hpos

namespace Kernel

variable {σ : Type} {V : Violation → Prop} {c : Conduct σ} {pins : Frame → Nat}
  {k k' : Kernel σ} {pid : Pid}

/-- A fresh kernel is sound, without pins. -/
theorem ends_boot {pageSize : Nat} {config : Config} {store : σ} {sections : List Section}
    {picks : List Nat} :
    Checked.Ends (fun _ => True) (boot pageSize config store sections picks) fun k =>
      k.Sound (fun _ => 0) none ∧ 0 < k.tlb.slots.length := by
  unfold boot
  simp only [Checked.ends_bind, Checked.ends_pure]
  refine PhysicalMemory.ends_create.imp fun memory hmem => ?_
  obtain ⟨hformed, hsize, hnum, hpos, hdivisible⟩ := hmem
  refine FrameTable.ends_create.imp fun frames hframes => ?_
  obtain ⟨hcount, hblank, hpool⟩ := hframes
  refine Tlb.ends_create.imp ?_
  rintro _ ⟨hslots, rfl⟩
  have hframesCoherent : ({ frames } : Residency).Coherent (fun _ => 0) none :=
    .of_nil rfl (hcount ▸ hpos) hblank hpool
  refine ⟨{
    frames := hframesCoherent
    tlb := .blank
    slots := fun s q w hstate => ?_
    memory := hformed
    numFrames := hcount.trans hnum.symm
    swapSize := hsize.symm
    physPages := hnum
    divisible := hsize ▸ hdivisible
    laid := fun ho => ?_ }, by simpa using hslots⟩
  · rw [Residency.page?_of_nil rfl] at hstate
    cases hstate
  · cases (Residency.outline?_of_nil rfl).symm.trans ho

/-- A kernel that has just been started. -/
structure Fresh (pageSize : Nat) (config : Config) (sections : List Section) (k : Kernel σ) :
    Prop where
  power : 2 ^ pageSize.log2 = pageSize
  pageSize : k.memory.pageSize = pageSize
  config : k.config = config
  sections : k.sections = sections
  empty : k.residency.processes = []

theorem ends_boot_fresh {pageSize : Nat} {config : Config} {store : σ} {sections : List Section}
    {picks : List Nat} :
    Checked.Ends (fun _ => True) (boot pageSize config store sections picks)
      (Fresh pageSize config sections) := by
  simp only [boot, PhysicalMemory.create, Checked.ends_bind, Checked.ends_require,
    Checked.ends_pure, decide_eq_true_eq, implies_true, and_true]
  intro hpower _
  refine Checked.ends_of_forall fun _ => Checked.ends_of_forall fun _ => ?_
  refine Checked.ends_of_forall fun _ => Checked.ends_of_forall fun _ => ?_
  exact ⟨hpower, rfl, rfl, rfl, rfl⟩

/-! ## Pins -/

/-- Taking a pin off a frame stops if the frame has none. -/
theorem ends_unpin_or_stop {f : Frame} (h : k.Sound pins none)
    {Q : Except PagingError Unit → Kernel σ → Prop} (hQ : ∀ k', Unpinned pins f k k' → Q (.ok ()) k') :
    Ends (fun _ => True) (onFrames (σ := σ) (·.unpin f)).run k Q := by
  cases hi : k.residency.frames.info? f with
  | none =>
    have hstop : k.residency.frames.unpin f = .error .index := by
      unfold FrameTable.info? at hi
      rw [FrameTable.unpin, FrameTable.lookup, hi]
      rfl
    unfold onFrames onResidency
    simp only [ends_bind, ends_get, ends_lift, Checked.ends_bind, hstop]
    trivial
  | some i =>
    have hcount : i.pinCount = pins f := h.frames.pinned hi (by simp)
    rcases Nat.eq_zero_or_pos (pins f) with hzero | hpos
    · have hstop : k.residency.frames.unpin f = .error (.frameNotPinned f) := by
        have hnot : i.isPinned = false := by simp [FrameInfo.isPinned, hcount, hzero]
        rw [FrameTable.unpin, FrameTable.lookup_eq hi]
        simp only [bind, Except.bind, Checked.require, hnot]
        rfl
      unfold onFrames onResidency
      simp only [ends_bind, ends_get, ends_lift, Checked.ends_bind, hstop]
      trivial
    · exact ends_unpin h hi hpos hQ

/-! ## Requests -/

/-- A sound kernel after an operation, on the same machine. -/
structure Continues (pins : Frame → Nat) (k k' : Kernel σ) : Prop where
  sound : k'.Sound pins none
  same : k.SameMachine k'

theorem Stays.continues (h : Stays pins k k') : Continues pins k k' := ⟨h.sound, h.keeps.same⟩

/-- Nobody has been made, either. -/
structure Serves (pins : Frame → Nat) (k k' : Kernel σ) : Prop extends Continues pins k k' where
  outline : ∀ {q o'}, k'.residency.outline? q = some o' →
    ∃ o, k.residency.outline? q = some o ∧ o.Ages o'

theorem Serves.refl (h : k.Sound pins none) : Serves pins k k := ⟨⟨h, .refl⟩, fun ho => ⟨_, ho, .refl⟩⟩

theorem Stays.serves (h : Stays pins k k') : Serves pins k k' :=
  ⟨h.continues, fun ho => ⟨_, (h.keeps.outline _).symm.trans ho, .refl⟩⟩

/-- What an action answers, if it does not fail. -/
def answer? {α : Type} (act : KernelM σ α) (k : Kernel σ) : Option α :=
  (act.run.run k).toOption.bind (·.1.toOption)

theorem answer?_eq_some {α : Type} {act : KernelM σ α} {a : α} :
    answer? act k = some a ↔ ∃ k', act.run.run k = .ok (.ok a, k') := by
  unfold answer?
  constructor
  · intro h
    cases hrun : act.run.run k with
    | error v =>
      rw [hrun] at h
      cases h
    | ok r =>
      obtain ⟨r | r, k'⟩ := r
      · rw [hrun] at h
        cases h
      · rw [hrun] at h
        cases h
        exact ⟨k', rfl⟩
  · rintro ⟨k', hrun⟩
    rw [hrun]
    rfl

section Requests

variable [BackingStore σ]

theorem ends_performFor {request : ProcessRequest} (hc : Tolerated c V k)
    (h : k.Sound pins none) (hsize : 0 < k.tlb.slots.length)
    (hpin : ∀ f, pins f + 1 < limit32 ∨ V .overflow)
    (hexit : request = .exit ∨ request = .drop → Exits V pid k) :
    Ends V (performFor pid request).run k fun _ k' => Serves pins k k' := by
  have hstays : ∀ {α β : Type} {act : KernelM σ α} {f : α → β},
      (Ends V act.run k fun _ k' => Stays pins k k') →
      Ends V (f <$> act).run k fun _ k' => Serves pins k k' :=
    fun hact => ends_map.2 (hact.imp fun _ _ hdone => hdone.serves)
  cases request with
  | loadByte vaddr => exact hstays (loadByte_stays hc h hsize)
  | storeByte vaddr b => exact hstays (storeByte_stays hc h hsize)
  | loadWord vaddr => exact hstays (loadWord_stays hc h hsize)
  | storeWord vaddr w => exact hstays (storeWord_stays hc h hsize)
  | readBytes vaddr buffer =>
    refine ends_bind.2 (ends_exceptT_lift.2 ((readBytes_stays hc h hpin).imp ?_))
    rintro ⟨result, bytes⟩ k' hdone
    cases result <;> exact hdone.serves
  | writeBytes vaddr data => exact hstays (writeBytes_stays hc h hpin)
  | handleMiss vaddr =>
    exact hstays (ends_handleMiss hc h hsize fun _ _ hserved => hserved.stays h)
  | saveState =>
    exact hstays ((ends_flush h).2 ⟨h.flushed, Keeps.absorb (List.length_map _)⟩)
  | restoreState => exact .refl h
  | exit =>
    refine ends_map.2 (ends_exit h (hexit (.inl rfl)) fun r k' hdone => ?_)
    exact ⟨⟨hdone.sound h, hdone.same⟩, hdone.outline⟩
  | drop =>
    refine ends_map.2 (ends_drop h (hexit (.inr rfl)) (fun _ => .refl h) fun k₁ hdone => ?_)
    obtain ⟨hconfig, himages, hpageSize, htlb⟩ := hdone.same
    refine ⟨⟨(hdone.sound h).withoutProcess (hdone.gone h), hconfig, himages, hpageSize, htlb⟩, ?_⟩
    exact fun ho => hdone.outline (Residency.outline?_of_dropProcess ho)

/-- A request other than making a process, which may stop for reasons of its own. -/
theorem ends_perform {request : Request} (hc : Tolerated c V k)
    (h : k.Sound pins none) (hsize : 0 < k.tlb.slots.length)
    (hpin : ∀ f, pins f + 1 < limit32 ∨ V .overflow)
    (hexit : ∀ pid, request = .process pid .exit ∨ request = .process pid .drop → Exits V pid k)
    (hspawn : ∀ sections, request = .spawn sections →
      Ends V (spawn (σ := σ) sections).run k fun _ _ => True) :
    Ends V (perform request).run k fun _ k' => Continues pins k k' := by
  cases request with
  | spawn sections =>
    refine ends_bind.2 (((hspawn sections rfl).of_returns ends_spawn).imp ?_)
    intro r k' hmade
    have hdone : Continues pins k k' := ⟨hmade.sound h, hmade.same⟩
    cases r with
    | error e => exact hdone
    | ok pid =>
      simp only [process, ends_bind, ends_get]
      cases k'.residency.process? pid <;> exact hdone
  | process pid request =>
    simp only [perform, ends_bind, ends_get]
    cases k.residency.process? pid with
    | none => exact ⟨h, .refl⟩
    | some p =>
      refine (ends_performFor hc h hsize hpin fun hends => hexit pid ?_).imp
        fun _ _ hdone => hdone.toContinues
      simpa using hends

/-! ## Runs -/

/-- Carries out an operation. -/
def operate : Operation → KernelM σ Unit
  | .request r => (fun _ => ()) <$> perform r
  | .pin pid vpn write => (fun _ => ()) <$> pinPage pid vpn write
  | .unpin frame => onFrames (·.unpin frame)

/-- The kernels that a fresh one can become. -/
inductive Reachable : Kernel σ → Prop where
  | fresh {pageSize config store sections picks k}
    (h : boot pageSize config store sections picks = .ok k) : Reachable k
  | step {k op r k'} (h : Reachable k) (hrun : (operate op).run.run k = .ok (r, k')) : Reachable k'

/-- An operation that returns keeps the kernel sound, with the pins that are then taken. -/
theorem ends_operate {op : Operation} (h : k.Sound pins none) (hsize : 0 < k.tlb.slots.length) :
    Ends (fun _ => True) (operate op).run k fun _ k' =>
      ∃ pins', Continues pins' k k' := by
  have hc : Tolerated (Conduct.any σ) (fun _ => True) k := .any
  have hpin : ∀ f, pins f + 1 < limit32 ∨ True := fun _ => .inr trivial
  cases op with
  | request r =>
    refine ends_map.2 ((ends_perform hc h hsize hpin (fun _ _ => .any) fun _ _ => ?_).imp ?_)
    · exact Checked.ends_true fun _ _ => trivial
    · exact fun _ _ hdone => ⟨pins, hdone⟩
  | pin pid vpn write =>
    refine ends_map.2 (ends_pinPage hc h (fun _ _ => hpin _) fun r k' hpage => ?_)
    cases hpage with
    | failed hres => exact ⟨pins, (hres.stays h).continues⟩
    | refused hres _ _ => exact ⟨pins, (hres.ready h).toStays.continues⟩
    | @pinned e f k₁ hres he hs hwrite =>
      have hready := (hres.ready h).toStays
      exact ⟨addPin pins f, hready.sound.referenced he hs hwrite, hready.keeps.config,
        hready.keeps.images, hready.keeps.pageSize, hready.keeps.tlbSize⟩
  | unpin f => exact ends_unpin_or_stop h fun k' hun => ⟨dropPin pins f, hun.sound h, hun.keeps.same⟩

/-- The induction is on the operations; the ledger of pins changes along the way. -/
theorem Reachable.sound (h : k.Reachable) :
    ∃ pins, k.Sound pins none ∧ 0 < k.tlb.slots.length := by
  induction h with
  | fresh h => exact ⟨_, (Checked.ends_of_eq_ok h).1 ends_boot⟩
  | step _ hrun ih =>
    obtain ⟨pins, hsound, hsize⟩ := ih
    obtain ⟨pins', hdone⟩ := (ends_operate hsound hsize).of_run hrun
    exact ⟨pins', hdone.sound, hdone.same.tlbSize ▸ hsize⟩

theorem Reachable.perform {request : Request} {reply : Except PagingError Reply} (h : k.Reachable)
    (hrun : (Kernel.perform request).run.run k = .ok (reply, k')) : k'.Reachable := by
  have hstep : (operate (.request request)).run.run k = .ok (reply.map fun _ => (), k') := by
    rw [operate, ExceptT.run_map, StateT.run_map, hrun]
    rfl
  exact h.step hstep

theorem run_cons {request : Request} {requests : List Request} :
    (run (request :: requests)).run k =
      ((Kernel.perform request).run.run k >>= fun first => (run requests).run first.2 >>= fun rest =>
        .ok (first.1 :: rest.1, rest.2)) := rfl

/-- Runs one after another. -/
theorem run_append {before after : List Request} :
    (run (before ++ after)).run k =
      ((run before).run k >>= fun first => (run after).run first.2 >>= fun rest =>
        .ok (first.1 ++ rest.1, rest.2)) := by
  induction before generalizing k with
  | nil =>
    change _ = ((run after).run k >>= fun rest => .ok (rest.1, rest.2))
    exact (bind_pure _).symm
  | cons request rest ih =>
    rw [List.cons_append, run_cons, run_cons, bind_assoc]
    refine congrArg _ (funext fun first => ?_)
    rw [ih, bind_assoc, bind_assoc]
    refine congrArg _ (funext fun second => ?_)
    change _ = ((run after).run second.2 >>= _)
    rw [bind_assoc]
    rfl

/-- A run leads from reachable kernels to reachable ones. -/
theorem Reachable.ends_run {requests : List Request} (h : k.Reachable) :
    Ends (fun _ => True) (Kernel.run requests) k fun _ k' => k'.Reachable := by
  induction requests generalizing k with
  | nil => exact h
  | cons request rest ih =>
    unfold Kernel.run
    refine step_ends_bind.2 (ends_self.imp fun reply k₁ hfirst => ?_)
    exact step_ends_bind.2 ((ih (h.perform hfirst)).imp fun _ _ hrest => hrest)

/-- Whatever a run from a fresh kernel shows, some reachable kernel shows. -/
theorem Reachable.exists_of_run {α : Type} {pageSize : Nat} {config : Config} {store : σ}
    {sections : List Section} {picks : List Nat} {requests : List Request} {f : Kernel σ → α} {a : α}
    (h : (boot pageSize config store sections picks >>= fun k =>
      (fun r => f r.2) <$> (Kernel.run requests).run k).toOption = some a) :
    ∃ k : Kernel σ, k.Reachable ∧ f k = a := by
  have hall : Checked.Ends (fun _ => True) (boot pageSize config store sections picks >>= fun k =>
      (fun r => f r.2) <$> (Kernel.run requests).run k) fun a => ∃ k : Kernel σ, k.Reachable ∧ f k = a := by
    rw [Checked.ends_bind]
    cases hboot : boot pageSize config store sections picks with
    | error v => trivial
    | ok k =>
      rw [Checked.ends_ok, Checked.ends_map]
      have hrun : Ends (fun _ => True) (Kernel.run requests) k fun _ k' => k'.Reachable :=
        Reachable.ends_run (.fresh hboot)
      exact Checked.Ends.imp hrun fun r hk => ⟨r.2, hk, rfl⟩
  revert h hall
  generalize (boot pageSize config store sections picks >>= fun k =>
    (fun r => f r.2) <$> (Kernel.run requests).run k) = run
  intro h hall
  cases run with
  | error v => cases h
  | ok b =>
    cases h
    exact hall

end Requests

end Kernel

end DemandPaging
