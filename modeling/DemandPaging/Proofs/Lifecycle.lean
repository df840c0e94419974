/-
  Making and ending processes keeps the kernel sound.

  * `Exited` lists how an exit may end, `Spawned` how making a process may;
  * a process that has exited is out of sight of the frame side, so that it may be forgotten.
-/
import DemandPaging.Proofs.Fault
import DemandPaging.Proofs.Release
import DemandPaging.Proofs.TlbBits

namespace DemandPaging

/-! ## The end of a process -/

namespace Kernel

variable {σ : Type} {V : Violation → Prop} {pins : Frame → Nat} {k k' k₁ : Kernel σ} {pid : Pid}

/-- What making and ending processes, too, leaves alone. -/
structure SameMachine (k k' : Kernel σ) : Prop where
  config : k'.config = k.config
  images : k'.images = k.images
  pageSize : k'.memory.pageSize = k.memory.pageSize
  tlbSize : k'.tlb.slots.length = k.tlb.slots.length

theorem SameMachine.refl : k.SameMachine k := ⟨rfl, rfl, rfl, rfl⟩

theorem SameMachine.trans (h : k.SameMachine k₁) (h' : k₁.SameMachine k') : k.SameMachine k' :=
  ⟨h'.config.trans h.config, h'.images.trans h.images, h'.pageSize.trans h.pageSize,
    h'.tlbSize.trans h.tlbSize⟩

theorem Keeps.same (h : k.Keeps k') : k.SameMachine k' :=
  ⟨h.config, h.images, h.pageSize, h.tlbSize⟩

/-- The kernel once process `pid` has ended, with the frames and the slots it leaves. -/
def finished (k : Kernel σ) (pid : Pid) (frames : FrameTable) (slots : SlotTable) : Kernel σ :=
  { k with
    tlb := (k.tlb.takeOwnedBy pid).2
    residency := k.residency.finish pid frames
    swap := { k.swap with slots := (slots.deallocateOwnedBy pid).2 } }

/-- How an exit of process `pid` may end. -/
inductive Exited (pins : Frame → Nat) (pid : Pid) (k : Kernel σ) :
    Except PagingError Unit → Kernel σ → Prop where
  | missing (hp : k.residency.process? pid = none) :
    Exited pins pid k (.error (.processExited pid)) k
  | again {p : Process} (hp : k.residency.process? pid = some p) (hexit : p.exited = true) :
    Exited pins pid k (.ok ()) k
  | ended {p : Process} {r slots} (hp : k.residency.process? pid = some p)
    (hlive : p.exited = false)
    (hpages : releasePages p.table { frames := k.residency.frames, slots := k.swap.slots } =
      .ok ⟨r.frames, slots, p.residentPages, p.swappedPages⟩)
    (hrel : Residency.Released pins pid 0 p.table.entries.toList.length k.residency k.swap.slots r
      slots) :
    Exited pins pid k (.ok ()) (k.finished pid r.frames slots)

/-- An exit of process `pid` does not stop, or with a violation in `V` only. -/
def Exits (V : Violation → Prop) (pid : Pid) (k : Kernel σ) : Prop :=
  ∀ p, k.residency.process? pid = some p → p.exited = false → p.Releasable ∨ V .overflow

/-- Nothing is asked of an exit that may stop. -/
theorem Exits.any : Exits (fun _ => True) pid k := fun _ _ _ => .inr trivial

/-- The pages of a live process are given back, and counted. -/
theorem Sound.releasePages_eq {p : Process} (h : k.Sound pins none)
    (hp : k.residency.process? pid = some p) (hlive : p.exited = false) :
    ∃ r slots, releasePages p.table { frames := k.residency.frames, slots := k.swap.slots } =
        counted (r.frames, slots) p.residentPages p.swappedPages ∧
      Residency.Released pins pid 0 p.table.entries.toList.length k.residency k.swap.slots r
        slots :=
  Kernel.releasePages_eq h.frames h.slots fun j => by
    rw [Residency.page?_of_process hp (h.registered hp hlive), PageTable.find?_eq]

/-- An exit of a live process goes as the giving back of its pages goes. -/
theorem run_exit_live {p : Process} (hp : k.residency.process? pid = some p)
    (hlive : p.exited = false) :
    (exit (σ := σ) pid).run.run k =
      (fun held => (.ok (), k.finished pid held.frames held.slots)) <$>
        releasePages p.table { frames := k.residency.frames, slots := k.swap.slots } := by
  have hp' : (k.residency.updateProcess pid fun p => { p with exited := true }).process? pid =
    some { p with exited := true } := Residency.process?_updateProcess_self hp
  refine run_eq_map_of_ends fun V Q => ?_
  simp only [exit, releaseProcess, process, ends_bind, ends_get, hp, ends_pure, hlive,
    Bool.false_eq_true, if_false, ends_change, hp', Residency.frames_updateProcess, ends_lift,
    ends_set, Residency.retire_eq]
  rfl

theorem ends_exit (h : k.Sound pins none) (hV : Exits V pid k)
    {Q : Except PagingError Unit → Kernel σ → Prop}
    (hQ : ∀ r k', Exited pins pid k r k' → Q r k') : Ends V (exit (σ := σ) pid).run k Q := by
  cases hp : k.residency.process? pid with
  | none =>
    simp only [exit, process, ends_bind, ends_get, hp, ends_throw]
    exact hQ _ _ (.missing hp)
  | some p =>
    cases hexit : p.exited with
    | true =>
      simp only [exit, process, ends_bind, ends_get, hp, ends_pure, hexit, if_true]
      exact hQ _ _ (.again hp hexit)
    | false =>
      obtain ⟨r, slots, hrun, hrel⟩ := h.releasePages_eq hp hexit
      unfold Ends
      rw [run_exit_live hp hexit, hrun]
      by_cases hcount : p.Releasable
      · rw [counted_of_releasable hcount] at hrun ⊢
        exact hQ _ _ (.ended hp hexit hrun hrel)
      · rw [counted_of_not_releasable hcount]
        exact (hV p hp hexit).resolve_left hcount

/-- An exit that cannot count what it gives back stops. -/
theorem Sound.exit_overflows {p : Process} (h : k.Sound pins none)
    (hp : k.residency.process? pid = some p) (hlive : p.exited = false) (hcount : ¬ p.Releasable) :
    (exit (σ := σ) pid).run.run k = .error .overflow := by
  obtain ⟨r, slots, hrun, -⟩ := h.releasePages_eq hp hlive
  rw [run_exit_live hp hlive, hrun, counted_of_not_releasable hcount]
  rfl

/-- No slot of the TLB is left with a process that has ended. -/
theorem ne_of_takeOwnedBy {slot : TlbSlot} {q : Pid} (hs : slot ∈ (k.tlb.takeOwnedBy pid).2.slots)
    (hv : slot.mapping.valid = true) (ho : slot.owner = some q) : q ≠ pid := by
  obtain ⟨s, -, rfl⟩ := List.mem_map.1 hs
  intro hq
  by_cases hgo : (s.mapping.valid && s.owner == some pid) = true
  · simp only [hgo, if_true] at hv
    cases hv
  · simp only [hgo, Bool.false_eq_true, if_false] at hv ho
    simp [hv, ho, hq] at hgo

/-- The copies of a process that ends are of no use to the others. -/
theorem Sound.bit_finished (h : k.Sound pins none) {b : Mapping → Bool} {frames : FrameTable}
    {q : Pid} {v : Vpn} {e : PageEntry} {f : Frame}
    (he : (k.residency.finish pid frames).page? q v = some e) (hs : e.state = .resident f) :
    bitIn b k.tlb.mappings f = bitIn b (k.tlb.takeOwnedBy pid).2.mappings f := by
  have hnone : bitIn b ((k.tlb.takeOwnedBy pid).1.map (·.2)) f = false := by
    refine bitIn_eq_false ?_
    rintro m hm hv rfl
    obtain ⟨slot, hslot, rfl, -, ho⟩ := Tlb.of_mem_takeWhere hm
    obtain ⟨q', ho', e', he', hs', -⟩ := h.tlb.tagged hslot hv
    have hq' : q' = pid := by simpa [ho'] using ho
    rw [Residency.page?_finish] at he
    split at he
    · cases he
    · next hq => exact hq (((h.frames.unique he' hs' he hs).1).trans hq')
  rw [← h.tlb.bit_takeWhere (p := fun slot => slot.owner == some pid), bitIn_append]
  exact (congrArg (· || _) hnone).trans (Bool.false_or _)

theorem Sound.finished {p : Process} {r : Residency} {slots : SlotTable} (h : k.Sound pins none)
    (hp : k.residency.process? pid = some p) (hlive : p.exited = false)
    (hrel : Residency.Released pins pid 0 p.table.entries.toList.length k.residency k.swap.slots r
      slots) :
    (k.finished pid r.frames slots).Sound pins none := by
  refine {
    frames := hrel.finish h.frames hp (h.registered hp hlive)
    tlb := (h.tlb.takeWhere fun slot => slot.owner == some pid).mono ?_
    slots := hrel.finish_slots, memory := h.memory, numFrames := hrel.size.trans h.numFrames
    swapSize := h.swapSize, physPages := h.physPages, divisible := h.divisible, laid := ?_ }
  · rintro slot q hslot hv ho ⟨e, he, hrest⟩
    refine ⟨e, ?_, hrest⟩
    exact Residency.page?_finish.trans (by rw [if_neg (ne_of_takeOwnedBy hslot hv ho), he])
  · intro q o ho
    by_cases hq : q = pid
    · subst hq
      obtain ⟨o₀, ho₀, rfl⟩ := Residency.outline?_finish_self ho
      have hlaid : o₀.Laid k.images k.memory.pageSize k.config.stackPages := h.laid ho₀
      exact hlaid
    · exact h.laid ((Residency.outline?_finish_ne hq).symm.trans ho)

theorem Exited.sound {result : Except PagingError Unit} (hexit : Exited pins pid k result k')
    (h : k.Sound pins none) : k'.Sound pins none := by
  cases hexit with
  | missing _ => exact h
  | again _ _ => exact h
  | ended hp hlive _ hrel => exact h.finished hp hlive hrel

theorem Exited.same {result : Except PagingError Unit} (hexit : Exited pins pid k result k') :
    k.SameMachine k' := by
  cases hexit with
  | missing _ => exact .refl
  | again _ _ => exact .refl
  | ended _ _ _ _ => exact ⟨rfl, rfl, rfl, List.length_map _⟩

/-- An exit makes nobody. -/
theorem Exited.outline {result : Except PagingError Unit} {q : Pid} {o' : Process.Outline}
    (hexit : Exited pins pid k result k') (ho : k'.residency.outline? q = some o') :
    ∃ o, k.residency.outline? q = some o ∧ o.Ages o' := by
  cases hexit with
  | missing => exact ⟨o', ho, .refl⟩
  | again => exact ⟨o', ho, .refl⟩
  | ended =>
    by_cases hq : q = pid
    · subst hq
      obtain ⟨o, ho₀, rfl⟩ := Residency.outline?_finish_self ho
      exact ⟨o, ho₀, rfl, rfl, fun _ => rfl⟩
    · exact ⟨o', (Residency.outline?_finish_ne hq).symm.trans ho, .refl⟩

end Kernel

/-! ## A new process -/

/-- A process that has not run yet, with the given flags of its pages. -/
def Process.fresh (sections : List SectionId) (flags : List Bool) : Process :=
  { table := .ofFlags flags, executable := sections, numPages := flags.length }

theorem Process.outline_fresh {sections : List SectionId} {flags : List Bool} :
    (fresh sections flags).outline = ⟨sections, flags.length, false, true, flags⟩ := by
  have hflags : ((PageTable.ofFlags flags).entries.toList.map (·.readOnly)) = flags := by
    refine List.ext_getElem? fun v => ?_
    rw [List.getElem?_map, ← PageTable.find?_eq, PageTable.find?_ofFlags, Option.map_map]
    exact Option.map_id_apply
  simp only [outline, fresh, hflags]

namespace Residency

variable {pins : Frame → Nat} {r : Residency} {q : Pid} {v : Vpn} {e : PageEntry}
  {sections : List SectionId} {flags : List Bool}

theorem page?_addProcess (he : (r.addProcess (.fresh sections flags)).page? q v = some e) :
    r.page? q v = some e ∨ q = r.nextPid ∧ flags[v]? = some e.readOnly ∧
      e = { vpn := v, readOnly := e.readOnly } := by
  obtain ⟨p, hp, hreg, hentry⟩ := page?_eq_some_iff.1 he
  rw [process?_addProcess] at hp
  split at hp
  · next hq =>
    cases hp
    rw [Process.fresh, PageTable.find?_ofFlags] at hentry
    obtain ⟨b, hb, rfl⟩ := Option.map_eq_some_iff.1 hentry
    exact .inr ⟨hq, hb, rfl⟩
  · exact .inl (page?_eq_some_iff.2 ⟨p, hp, hreg, hentry⟩)

/-- The pages of the other processes stay. -/
theorem page?_addProcess_of_some {p : Process} (he : r.page? q v = some e) :
    (r.addProcess p).page? q v = some e := by
  obtain ⟨p', hp', hreg, hentry⟩ := page?_eq_some_iff.1 he
  refine page?_eq_some_iff.2 ⟨p', ?_, hreg, hentry⟩
  rw [process?_addProcess, if_neg, hp']
  rintro rfl
  rw [process?_nextPid] at hp'
  cases hp'

theorem outline?_addProcess : (r.addProcess (.fresh sections flags)).outline? q =
    if q = r.nextPid then some ⟨sections, flags.length, false, true, flags⟩ else r.outline? q := by
  rw [outline?, process?_addProcess]
  split
  · rw [Option.map_some, Process.outline_fresh]
  · rfl

theorem Formed.addProcess (h : r.Formed) : (r.addProcess (.fresh sections flags)).Formed := by
  refine ⟨?_, ?_, ?_, ?_, ?_⟩
  · intro q v e he
    rcases page?_addProcess he with hold | ⟨-, -, hnew⟩
    · exact h.numbered hold
    · rw [hnew]
  · intro q v e he hro
    rcases page?_addProcess he with hold | ⟨-, -, hnew⟩
    · exact h.clean hold hro
    · rw [hnew]
  · intro q o ho
    rw [outline?_addProcess] at ho
    split at ho
    · cases ho
      rfl
    · exact h.live ho
  · intro q o ho
    rw [outline?_addProcess] at ho
    split at ho
    · cases ho
      rfl
    · exact h.sized ho
  · intro q p hp hreg
    rw [process?_addProcess] at hp
    split at hp
    · cases hp
      cases hreg
    · exact h.gone hp hreg

theorem Coherent.addProcess (h : r.Coherent pins none) :
    (r.addProcess (.fresh sections flags)).Coherent pins none := by
  refine h.of_pages h.toFormed.addProcess rfl rfl fun {q v e f} hs => ?_
  refine ⟨fun he => ?_, page?_addProcess_of_some⟩
  rcases page?_addProcess he with hold | ⟨-, -, hnew⟩
  · exact hold
  · rw [hnew] at hs
    cases hs

end Residency

namespace Kernel

variable {σ : Type} {V : Violation → Prop} {pins : Frame → Nat} {k k' : Kernel σ} {pid : Pid}
  {sections : List SectionId}

/-- The kernel with a new process. -/
def withProcess (k : Kernel σ) (p : Process) : Kernel σ :=
  { k with residency := k.residency.addProcess p }

/-- The sections make an image of whole pages without holes, with the given flags. -/
structure Loadable (k : Kernel σ) (sections : List SectionId) (flags : List Bool) (exe : Executable) :
    Prop where
  executable : k.executable sections = .ok exe
  pageSize : ∀ s ∈ exe, s.pageSize = k.memory.pageSize
  tiled : exe.checkContiguous.run = .ok (.ok ())
  pages : exe.numPages = .ok flags.length
  flagged : exe.flagList = .ok flags
  room : flags.length + k.config.stackPages < limit32

/-- How making a process may end. -/
inductive Spawned (sections : List SectionId) (k : Kernel σ) :
    Except PagingError Pid → Kernel σ → Prop where
  | refused {error} : Spawned sections k (.error error) k
  | made {flags exe} (hload : k.Loadable sections flags exe) :
    Spawned sections k (.ok k.residency.nextPid) (k.withProcess
      (.fresh sections (flags ++ List.replicate k.config.stackPages false)))

theorem pageSize_of_check {exe : Executable} {pageSize : Nat}
    (h : exe.checkPageSize pageSize = .ok ()) : ∀ s ∈ exe, s.pageSize = pageSize := by
  intro s hs
  unfold Executable.checkPageSize at h
  split at h
  · next hnone => simpa using List.find?_eq_none.1 hnone s hs
  · cases h

/-- This is about the runs that end: what may stop one is of no concern here. -/
theorem ends_spawn : Ends (fun _ => True) (spawn (σ := σ) sections).run k (Spawned sections k) := by
  unfold spawn
  simp only [ends_bind, ends_get, ends_lift, ends_ofExcept, ends_ofAttempt]
  cases hexe : k.executable sections with
  | error v => trivial
  | ok exe =>
    rw [Checked.ends_ok]
    cases hsize : exe.checkPageSize k.pageSize with
    | error e => exact .refused
    | ok _ =>
      rw [mapError_ok]
      cases htiled : exe.checkContiguous.run with
      | error v => trivial
      | ok result =>
        cases result with
        | error e => exact .refused
        | ok _ =>
          simp only [Checked.ends_ok, Checked.ends_addBelow]
          cases hpages : exe.numPages with
          | error v => trivial
          | ok n =>
            refine ⟨fun hroom => ?_, fun _ => trivial⟩
            obtain ⟨flags, hflags, rfl, hmark⟩ :=
              Executable.flagPages_create k.config.stackPages htiled hpages
            have hload : k.Loadable sections flags exe :=
              ⟨hexe, pageSize_of_check hsize, htiled, hpages, hflags, hroom⟩
            have hmade := Spawned.made hload
            rw [withProcess, Process.fresh, List.length_append, List.length_replicate] at hmade
            rw [hmark, Checked.ends_ok, mapError_ok]
            exact ends_change.2 hmade

theorem Loadable.laid {flags : List Bool} {exe : Executable} (h : k.Loadable sections flags exe) :
    (Process.fresh sections (flags ++ List.replicate k.config.stackPages false)).outline.Laid
      k.images k.memory.pageSize k.config.stackPages := by
  rw [Process.outline_fresh]
  refine ⟨exe.unloaded, flags, images_of_executable h.executable, ?_, ?_, ?_, ?_, rfl, h.room⟩
  · intro s hs
    obtain ⟨s₀, hs₀, rfl⟩ := List.mem_map.1 hs
    exact h.pageSize s₀ hs₀
  · exact (congrArg ExceptT.run Executable.contiguousFrom_unloaded).trans h.tiled
  · exact Executable.flagList_unloaded.trans h.flagged
  · exact Executable.countFrom_unloaded.trans h.pages

theorem Spawned.sound {result : Except PagingError Pid} (hspawn : Spawned sections k result k')
    (h : k.Sound pins none) : k'.Sound pins none := by
  cases hspawn with
  | refused => exact h
  | @made flags exe hload =>
    refine {
      frames := h.frames.addProcess, tlb := h.tlb.mono ?_, slots := ?_, memory := h.memory
      numFrames := h.numFrames, swapSize := h.swapSize, physPages := h.physPages
      divisible := h.divisible, laid := ?_ }
    · rintro slot q - - - ⟨e, he, hrest⟩
      exact ⟨e, Residency.page?_addProcess_of_some he, hrest⟩
    · intro s q w hstate
      obtain ⟨e, he, hs⟩ := Option.map_eq_some_iff.1 hstate
      rcases Residency.page?_addProcess he with hold | ⟨-, -, hfresh⟩
      · exact h.slots s q w (Option.map_eq_some_iff.2 ⟨e, hold, hs⟩)
      · rw [hfresh] at hs
        cases hs
    · intro q o ho
      change (k.residency.addProcess _).outline? q = some o at ho
      rw [Residency.outline?_addProcess] at ho
      split at ho
      · cases ho
        rw [← Process.outline_fresh]
        exact hload.laid
      · exact h.laid ho

/-- The other processes are those that were there. -/
theorem Spawned.outline_of_ne {result : Except PagingError Pid} {q : Pid} {o : Process.Outline}
    (hspawn : Spawned sections k result k') (hq : q ≠ k.residency.nextPid)
    (ho : k'.residency.outline? q = some o) : k.residency.outline? q = some o := by
  cases hspawn with
  | refused => exact ho
  | made => exact (Residency.outline?_addProcess.trans (if_neg hq)).symm.trans ho

theorem Spawned.same {result : Except PagingError Pid} (hspawn : Spawned sections k result k') :
    k.SameMachine k' := by
  cases hspawn <;> exact ⟨rfl, rfl, rfl, rfl⟩

end Kernel

/-! ## Forgetting a process -/

namespace Residency

variable {pins : Frame → Nat} {r : Residency} {pid q : Pid} {v : Vpn}

/-- A process whose table is out of sight has no pages to lose. -/
theorem page?_dropProcess (hgone : ∀ p, r.process? pid = some p → p.registered = false) :
    (r.dropProcess pid).page? q v = r.page? q v := by
  by_cases hq : q = pid
  · subst hq
    have hnone : r.table? q = none := by
      cases ht : r.table? q with
      | none => rfl
      | some t =>
        obtain ⟨p, hp, hreg, -⟩ := table?_eq_some_iff.1 ht
        cases hreg.symm.trans (hgone p hp)
    have hdrop : (r.dropProcess q).table? q = none := by
      rw [table?, process?_dropProcess, if_pos rfl]
      rfl
    rw [page?, page?, hnone, hdrop]
  · exact page?_congr (process?_dropProcess.trans (if_neg hq))

theorem outline?_of_dropProcess {o : Process.Outline}
    (ho : (r.dropProcess pid).outline? q = some o) : r.outline? q = some o := by
  rw [outline?, process?_dropProcess] at ho
  split at ho
  · cases ho
  · exact ho

theorem Coherent.dropProcess (h : r.Coherent pins none)
    (hgone : ∀ p, r.process? pid = some p → p.registered = false) :
    (r.dropProcess pid).Coherent pins none := by
  have hsub : ∀ {q p}, (r.dropProcess pid).process? q = some p → r.process? q = some p := by
    intro q p hp
    rw [process?_dropProcess] at hp
    split at hp
    · cases hp
    · exact hp
  refine h.of_pages ⟨?_, ?_, fun ho => h.live (outline?_of_dropProcess ho),
    fun ho => h.sized (outline?_of_dropProcess ho), fun hp => h.gone (hsub hp)⟩
    frames_dropProcess hand_dropProcess fun _ => ?_
  · exact fun he => h.numbered ((page?_dropProcess hgone).symm.trans he)
  · exact fun he => h.clean ((page?_dropProcess hgone).symm.trans he)
  · rw [page?_dropProcess hgone]

end Residency

namespace Kernel

variable {σ : Type} {V : Violation → Prop} {pins : Frame → Nat} {k k' : Kernel σ} {pid : Pid}

/-- The kernel without process `pid`. -/
def withoutProcess (k : Kernel σ) (pid : Pid) : Kernel σ :=
  { k with residency := k.residency.dropProcess pid }

theorem Sound.withoutProcess (h : k.Sound pins none)
    (hgone : ∀ p, k.residency.process? pid = some p → p.registered = false) :
    (k.withoutProcess pid).Sound pins none := by
  refine {
    frames := h.frames.dropProcess hgone, tlb := h.tlb.mono ?_
    slots := h.slots.mono fun q w => congrArg _ (Residency.page?_dropProcess hgone)
    memory := h.memory, numFrames := ?_, swapSize := h.swapSize, physPages := h.physPages
    divisible := h.divisible, laid := fun ho => h.laid (Residency.outline?_of_dropProcess ho) }
  · rintro slot q - - - ⟨e, he, hrest⟩
    exact ⟨e, (Residency.page?_dropProcess hgone).trans he, hrest⟩
  · exact (congrArg FrameTable.size Residency.frames_dropProcess).trans h.numFrames

/-- A process that has exited is out of sight. -/
theorem Exited.gone (hexit : Exited pins pid k (.ok ()) k') (h : k.Sound pins none) :
    ∀ p, k'.residency.process? pid = some p → p.registered = false := by
  intro p hp
  cases hexit with
  | @again p₀ hp₀ hdead =>
    cases hp₀.symm.trans hp
    rw [h.registered_eq hp, hdead]
    rfl
  | ended hp₀ _ _ _ =>
    change (k.residency.finish pid _).process? pid = some p at hp
    rw [Residency.process?_finish, if_pos rfl, hp₀] at hp
    cases hp
    rfl

/-- A process is forgotten once it has exited. -/
theorem ends_drop (h : k.Sound pins none) (hV : Exits V pid k)
    {Q : Except PagingError Unit → Kernel σ → Prop}
    (hmissing : k.residency.process? pid = none → Q (.error (.processExited pid)) k)
    (hQ : ∀ k₁, Exited pins pid k (.ok ()) k₁ → Q (.ok ()) (k₁.withoutProcess pid)) :
    Ends V (drop (σ := σ) pid).run k Q := by
  unfold drop
  rw [ends_bind]
  refine ends_exit h hV fun r k₁ hexit => ?_
  cases r with
  | ok _ => exact ends_change.2 (hQ k₁ hexit)
  | error e =>
    cases hexit with
    | missing hp => exact hmissing hp

end Kernel

end DemandPaging
