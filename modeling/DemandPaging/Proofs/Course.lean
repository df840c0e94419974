/-
  The course of an operation.

  A `Step` is one thing that happens to the kernel: bits are written back, the clock sweeps, a
  frame is taken from a page, content comes in, a process is made or ends.  A `Course` is a run
  of steps with the accesses of processes in between, each of which marks its page before it
  moves bytes.  What every step and every access preserves, every operation preserves: the
  lemmas here say that faults take such a course, those of `Proofs/Instructions` that requests
  do.
-/
import DemandPaging.Proofs.Copy
import DemandPaging.Proofs.Lifecycle
import DemandPaging.Proofs.Settled
import Mathlib.Logic.Relation

namespace DemandPaging

/-- Bytes that a process has read from its address space, or written to it, one after another
    from an address on. -/
structure Access where
  pid : Pid
  vaddr : Nat
  bytes : Bytes
  write : Bool
deriving DecidableEq, Repr

namespace Kernel

variable {σ : Type} {c : Conduct σ} {pins : Frame → Nat} {k k' k₁ k₂ : Kernel σ} {pid : Pid}
  {v : Vpn} {e : PageEntry} {f : Frame} {p : Process} {log log' : List Access} {write : Bool}
  {slot : TlbSlot} {m : Mapping}

/-! ## Steps -/

/-- An access to page `v` of process `pid`, which is in frame `f`, marks the page as used, and as
    dirty if it is a write: in the slot of the TLB that leads to the page, or in its entry. -/
inductive Accessed (pins : Frame → Nat) (pid : Pid) (v : Vpn) (f : Frame) (write : Bool)
    (k : Kernel σ) : Kernel σ → Prop where
  | hit {i : Nat} {slot : TlbSlot} (h : k.Sound pins none) (hslot : k.tlb.slots[i]? = some slot)
    (hv : slot.mapping.valid = true) (ho : slot.owner = some pid) (hvpn : slot.mapping.vpn = v)
    (hppn : slot.mapping.ppn = f) (hwrite : write = true → slot.mapping.readOnly = false) :
    Accessed pins pid v f write k (k.touched i slot write)
  | marked {e : PageEntry} (h : k.Sound pins none) (he : k.residency.page? pid v = some e)
    (hs : e.state = .resident f) (hwrite : write = true → e.readOnly = false) :
    Accessed pins pid v f write k (k.referenced pid v (e.touch write) f (pins f))

/-- One step of an operation in which no process has access to its memory. -/
inductive Step (c : Conduct σ) (pins : Frame → Nat) : Kernel σ → Kernel σ → Prop where
  /-- Copies are written back as they leave the TLB: a page has the bits that it had, in its
      entry or in a copy. -/
  | settled {k : Kernel σ} {copies : List Mapping} {tlb : Tlb} {choices : Choices}
    (h : k.Sound pins none) (hsize : tlb.slots.length = k.tlb.slots.length)
    (hbits : ∀ {pid v e f}, k.residency.page? pid v = some e → e.state = .resident f →
      (e.used || usedIn (copies ++ tlb.mappings) f) = (e.used || usedIn k.tlb.mappings f) ∧
        (e.dirty || dirtyIn (copies ++ tlb.mappings) f) = (e.dirty || dirtyIn k.tlb.mappings f)) :
    Step c pins k { k with tlb, choices, residency := k.residency.absorb copies }
  /-- The hand of the clock has moved on. -/
  | swept {k : Kernel σ} {victim : Option (Frame × Pid)} {r : Residency} (h : k.Sound pins none)
    (hswept : Residency.SweptTo pins k.residency victim r) : Step c pins k { k with residency := r }
  /-- A page fault has been counted. -/
  | counted {k : Kernel σ} : Step c pins k k.faulting
  /-- A frame has left the pool. -/
  | pooled {k : Kernel σ} {f : Frame} {table : FrameTable} (h : k.Sound pins none)
    (htake : k.residency.frames.takeOne = some (f, table)) :
    Step c pins k { k with residency := { k.residency with frames := table } }
  /-- A page without copies in the TLB has lost its frame, or could not be written out. -/
  | vacated {k k' : Kernel σ} {f : Frame} {pid : Pid} {v : Vpn} {e : PageEntry}
    {r : Except PagingError Unit} (h : k.Sound pins none)
    (he : k.residency.page? pid v = some e) (hs : e.state = .resident f) (hpins : pins f = 0)
    (hout : ∀ slot ∈ k.tlb.slots, slot.mapping.valid = true → slot.mapping.ppn ≠ f)
    (hvac : Vacated c f pid v e k r k') : Step c pins k k'
  /-- The content of a page has been brought into the frame in hand. -/
  | loaded {k k' : Kernel σ} {f : Frame} {pid : Pid} {v : Vpn} {page : Bytes} {p : Process}
    {e : PageEntry} (h : k.Sound pins (some f)) (hpins : pins f = 0)
    (hp : k.residency.outline? pid = some p.outline) (he : k.residency.page? pid v = some e)
    (hs : ∀ g, e.state ≠ .resident g) (hfetch : Fetched c p e k (.ok page) k')
    (hlen : page.length = k'.memory.pageSize) : Step c pins k (k'.withPage f pid v e page)
  /-- No content has come, and the frame in hand is back in the pool. -/
  | returned {k k' : Kernel σ} {f : Frame} {pid : Pid} {v : Vpn} {error : PagingError} {p : Process}
    {e : PageEntry} (h : k.Sound pins (some f)) (hpins : pins f = 0)
    (he : k.residency.page? pid v = some e) (hfetch : Fetched c p e k (.error error) k') :
    Step c pins k (k'.withFree f)
  | spawned {k k' : Kernel σ} {sections : List SectionId} {r : Except PagingError Pid}
    (h : k.Sound pins none) (hspawn : Spawned sections k r k') : Step c pins k k'
  | exited {k k' : Kernel σ} {pid : Pid} {r : Except PagingError Unit} (h : k.Sound pins none)
    (hexit : Exited pins pid k r k') : Step c pins k k'
  /-- A process that has exited has been forgotten. -/
  | forgotten {k : Kernel σ} {pid : Pid} (h : k.Sound pins none)
    (hgone : ∀ p, k.residency.process? pid = some p → p.registered = false) :
    Step c pins k (k.withoutProcess pid)

/-- Steps from `k` on, and accesses in their order. -/
inductive Course (c : Conduct σ) (pins : Frame → Nat) (k : Kernel σ) :
    List Access → Kernel σ → Prop where
  | start : Course c pins k [] k
  | step {log : List Access} {k₁ k₂ : Kernel σ} (hcourse : Course c pins k log k₁)
    (hstep : Step c pins k₁ k₂) : Course c pins k log k₂
  /-- A process has read `len` bytes of a page. -/
  | read {log : List Access} {k₁ k₂ : Kernel σ} {pid : Pid} {v : Vpn} {f : Frame} {offset len : Nat}
    (hcourse : Course c pins k log k₁) (hacc : Accessed pins pid v f false k₁ k₂)
    (hfits : offset + len ≤ k₁.memory.pageSize) :
    Course c pins k (log ++ [⟨pid, v * k₁.memory.pageSize + offset,
      Bytes.slice (k₁.memory.frameBytes f) offset len, false⟩]) k₂
  /-- A process has replaced bytes of a page. -/
  | wrote {log : List Access} {k₁ k₂ : Kernel σ} {pid : Pid} {v : Vpn} {f : Frame} {offset : Nat}
    {bytes : Bytes} (hcourse : Course c pins k log k₁) (hacc : Accessed pins pid v f true k₁ k₂)
    (hsome : 0 < bytes.length) (hfits : offset + bytes.length ≤ k₁.memory.pageSize) :
    Course c pins k (log ++ [⟨pid, v * k₁.memory.pageSize + offset, bytes, true⟩])
      { k₂ with memory := k₁.memory.patch (f * k₁.memory.pageSize + offset) bytes }
  /-- A word has been stored that its page is too small for. -/
  | spilled {log : List Access} {k₁ k₂ : Kernel σ} {pid : Pid} {v : Vpn} {f : Frame}
    {memory : PhysicalMemory} (hcourse : Course c pins k log k₁)
    (hsmall : ¬ Bytes.wordSize ∣ k₁.memory.pageSize) (hacc : Accessed pins pid v f true k₁ k₂)
    (hformed : memory.Formed) (hsize : memory.pageSize = k₁.memory.pageSize)
    (hframes : memory.numFrames = k₁.memory.numFrames) :
    Course c pins k log { k₂ with memory }

theorem Course.trans (h : Course c pins k log k₁) (h' : Course c pins k₁ log' k') :
    Course c pins k (log ++ log') k' := by
  induction h' with
  | start => rwa [List.append_nil]
  | step _ hstep ih => exact ih.step hstep
  | read _ hacc hfits ih =>
    rw [← List.append_assoc]
    exact ih.read hacc hfits
  | wrote _ hacc hsome hfits ih =>
    rw [← List.append_assoc]
    exact ih.wrote hacc hsome hfits
  | spilled _ hsmall hacc hformed hsize hframes ih =>
    exact ih.spilled hsmall hacc hformed hsize hframes

theorem Step.course (h : Step c pins k k') : Course c pins k [] k' := Course.start.step h

/-- Steps one after another, without any accesses. -/
abbrev Steps (c : Conduct σ) (pins : Frame → Nat) : Kernel σ → Kernel σ → Prop :=
  Relation.ReflTransGen (Step c pins)

theorem Steps.course (h : Steps c pins k k') : Course c pins k [] k' := by
  induction h with
  | refl => exact .start
  | tail _ hstep ih => exact ih.step hstep

/-! ## Accesses -/

theorem Accessed.sound_before (h : Accessed pins pid v f write k k') : k.Sound pins none := by
  cases h <;> assumption

/-- An accessed page is in its frame, and may be written if it was. -/
theorem Accessed.page (h : Accessed pins pid v f write k k') :
    ∃ e, k.residency.page? pid v = some e ∧ e.state = .resident f ∧
      (write = true → e.readOnly = false) := by
  cases h with
  | hit hk hslot hv ho hvpn hppn hwrite =>
    obtain ⟨e, he, hs, hro, -⟩ := hk.tlb.backs (List.mem_of_getElem? hslot) hv ho
    exact ⟨e, hvpn ▸ he, hppn ▸ hs, fun hw => hro.symm.trans (hwrite hw)⟩
  | marked hk he hs hwrite => exact ⟨_, he, hs, hwrite⟩

/-- An access moves no page. -/
theorem Accessed.states (h : Accessed pins pid v f write k k') (q : Pid) (w : Vpn) :
    (k'.residency.page? q w).map (·.state) = (k.residency.page? q w).map (·.state) := by
  cases h with
  | hit => rfl
  | marked hk he hs hwrite => exact Residency.state_link he rfl

theorem Accessed.memory (h : Accessed pins pid v f write k k') : k'.memory = k.memory := by
  cases h <;> rfl

theorem Accessed.swap (h : Accessed pins pid v f write k k') : k'.swap = k.swap := by
  cases h <;> rfl

theorem Accessed.stays (h : Accessed pins pid v f write k k') : Stays pins k k' := by
  cases h with
  | hit hk hslot hv ho hvpn hppn hwrite =>
    exact ⟨hk.touched hslot hv hwrite, keeps_touched⟩
  | marked hk he hs hwrite =>
    exact ⟨hk.marked he hs hwrite, rfl, rfl, rfl, rfl, fun _ => Residency.outline?_link he rfl⟩

/-- The frame of an accessed page is there. -/
theorem Accessed.frame_lt (h : Accessed pins pid v f write k k') : f < k.memory.numFrames := by
  obtain ⟨e, he, hs, -⟩ := h.page
  exact h.sound_before.numFrames ▸ FrameTable.lt_size (h.sound_before.frames.resident he hs).2

/-! ## What a course leaves alone -/

/-- Fetching a page is done on the same machine. -/
theorem Fetched.same {result : Except PagingError Bytes} (h : Fetched c p e k result k') :
    k.SameMachine k' := by
  obtain ⟨swap, sections, rfl, -, himages⟩ := h.rest
  exact ⟨rfl, himages, rfl, rfl⟩

theorem Vacated.same {r : Except PagingError Unit} (h : Vacated c f pid v e k r k') :
    k.SameMachine k' := by
  cases h <;> exact ⟨rfl, rfl, rfl, rfl⟩

theorem Step.same (h : Step c pins k k') : k.SameMachine k' := by
  cases h with
  | settled _ hsize _ => exact ⟨rfl, rfl, rfl, hsize⟩
  | swept => exact ⟨rfl, rfl, rfl, rfl⟩
  | counted => exact ⟨rfl, rfl, rfl, rfl⟩
  | pooled => exact ⟨rfl, rfl, rfl, rfl⟩
  | vacated _ _ _ _ _ hvac => exact hvac.same
  | loaded _ _ _ _ _ hfetch _ =>
    obtain ⟨hconfig, himages, hsize, htlb⟩ := hfetch.same
    exact ⟨hconfig, himages, hsize, htlb⟩
  | returned _ _ _ hfetch =>
    obtain ⟨hconfig, himages, hsize, htlb⟩ := hfetch.same
    exact ⟨hconfig, himages, hsize, htlb⟩
  | spawned _ hspawn => exact hspawn.same
  | exited _ hexit => exact hexit.same
  | forgotten => exact ⟨rfl, rfl, rfl, rfl⟩

theorem Course.same (h : Course c pins k log k') : k.SameMachine k' := by
  induction h with
  | start => exact .refl
  | step _ hstep ih => exact ih.trans hstep.same
  | read _ hacc _ ih => exact ih.trans hacc.stays.keeps.same
  | wrote _ hacc _ _ ih =>
    obtain ⟨hconfig, himages, -, htlb⟩ := ih.trans hacc.stays.keeps.same
    exact ⟨hconfig, himages, ih.pageSize, htlb⟩
  | spilled _ _ hacc _ hsize _ ih =>
    obtain ⟨hconfig, himages, -, htlb⟩ := ih.trans hacc.stays.keeps.same
    exact ⟨hconfig, himages, hsize.trans ih.pageSize, htlb⟩

/-- No process number is given twice. -/
theorem Step.nextPid_le (h : Step c pins k k') : k.residency.nextPid ≤ k'.residency.nextPid := by
  cases h with
  | settled => exact Nat.le_of_eq Residency.nextPid_map.symm
  | swept _ hswept => exact Nat.le_of_eq hswept.cools.nextPid.symm
  | counted => exact Nat.le_refl _
  | pooled => exact Nat.le_refl _
  | vacated _ _ _ _ _ hvac =>
    cases hvac with
    | dropped => exact Nat.le_of_eq Residency.nextPid_link.symm
    | saved => exact Nat.le_of_eq Residency.nextPid_link.symm
    | refused => exact Nat.le_refl _
  | loaded _ _ _ _ _ hfetch _ =>
    obtain ⟨_, _, rfl, -⟩ := hfetch.rest
    exact Nat.le_of_eq Residency.nextPid_link.symm
  | returned _ _ _ hfetch =>
    obtain ⟨_, _, rfl, -⟩ := hfetch.rest
    exact Nat.le_refl _
  | spawned _ hspawn =>
    cases hspawn with
    | refused => exact Nat.le_refl _
    | made => exact Nat.le_of_lt (Residency.nextPid_addProcess ▸ Nat.lt_succ_self _)
  | exited _ hexit =>
    cases hexit with
    | missing => exact Nat.le_refl _
    | again => exact Nat.le_refl _
    | ended => exact Nat.le_of_eq Residency.nextPid_updateProcess.symm
  | forgotten => exact Nat.le_of_eq Residency.nextPid_dropProcess.symm

theorem Accessed.nextPid (h : Accessed pins pid v f write k k') :
    k'.residency.nextPid = k.residency.nextPid := by
  cases h with
  | hit => rfl
  | marked => exact Residency.nextPid_link

/-- A process is what it was before, or has just been made. -/
theorem Step.outline {q : Pid} {o' : Process.Outline} (h : Step c pins k k')
    (hq : q < k.residency.nextPid) (ho : k'.residency.outline? q = some o') :
    ∃ o, k.residency.outline? q = some o ∧ o.Ages o' := by
  have hsame : k'.residency.outline? q = k.residency.outline? q →
      ∃ o, k.residency.outline? q = some o ∧ o.Ages o' :=
    fun heq => ⟨o', heq.symm.trans ho, .refl⟩
  cases h with
  | settled => exact hsame (Residency.outline?_map fun _ => PageEntry.readOnly_absorb)
  | swept _ hswept => exact hsame (hswept.cools.outline q)
  | counted => exact hsame rfl
  | pooled => exact hsame Residency.outline?_frames
  | vacated _ he _ _ _ hvac =>
    cases hvac with
    | dropped => exact hsame (Residency.outline?_link he rfl)
    | saved => exact hsame (Residency.outline?_link he rfl)
    | refused => exact hsame rfl
  | loaded _ _ _ he _ hfetch _ =>
    obtain ⟨_, _, rfl, -⟩ := hfetch.rest
    exact hsame (Residency.outline?_link he rfl)
  | returned _ _ _ hfetch =>
    obtain ⟨_, _, rfl, -⟩ := hfetch.rest
    exact hsame Residency.outline?_frames
  | spawned _ hspawn => exact ⟨o', hspawn.outline_of_ne (Nat.ne_of_lt hq) ho, .refl⟩
  | exited _ hexit => exact hexit.outline ho
  | forgotten => exact ⟨o', Residency.outline?_of_dropProcess ho, .refl⟩

/-- What steps and accesses preserve, whatever is in memory, a course preserves. -/
theorem Course.preserves {I : Kernel σ → Prop} (h : Course c pins k log k') (hk : I k)
    (hstep : ∀ k k', Step c pins k k' → I k → I k')
    (hacc : ∀ k k' pid v f write, Accessed pins pid v f write k k' → I k → I k')
    (hmemory : ∀ (k : Kernel σ) memory, I k → I { k with memory }) : I k' := by
  induction h with
  | start => exact hk
  | step _ hs ih => exact hstep _ _ hs ih
  | read _ ha _ ih => exact hacc _ _ _ _ _ _ ha ih
  | wrote _ ha _ _ ih => exact hmemory _ _ (hacc _ _ _ _ _ _ ha ih)
  | spilled _ _ ha _ _ _ ih => exact hmemory _ _ (hacc _ _ _ _ _ _ ha ih)

theorem Course.nextPid_le (h : Course c pins k log k') :
    k.residency.nextPid ≤ k'.residency.nextPid :=
  h.preserves (I := fun k' => k.residency.nextPid ≤ k'.residency.nextPid) (Nat.le_refl _)
    (fun _ _ hstep hle => Nat.le_trans hle hstep.nextPid_le)
    (fun _ _ _ _ _ _ hacc hle => hacc.nextPid.symm ▸ hle) fun _ _ h => h

/-- A process that was there is what it was, but older. -/
theorem Course.outline {q : Pid} {o' : Process.Outline} (h : Course c pins k log k')
    (hq : q < k.residency.nextPid) (ho : k'.residency.outline? q = some o') :
    ∃ o, k.residency.outline? q = some o ∧ o.Ages o' := by
  have hall : k.residency.nextPid ≤ k'.residency.nextPid ∧ ∀ o', k'.residency.outline? q = some o' →
      ∃ o, k.residency.outline? q = some o ∧ o.Ages o' := by
    refine h.preserves (I := fun k₁ => k.residency.nextPid ≤ k₁.residency.nextPid ∧
      ∀ o', k₁.residency.outline? q = some o' → ∃ o, k.residency.outline? q = some o ∧ o.Ages o')
      ⟨Nat.le_refl _, fun o' ho => ⟨o', ho, .refl⟩⟩ ?_ ?_ fun _ _ h => h
    · rintro k₁ k₂ hstep ⟨hnext, hold⟩
      refine ⟨Nat.le_trans hnext hstep.nextPid_le, fun o₂ ho₂ => ?_⟩
      obtain ⟨o₁, ho₁, hages⟩ := hstep.outline (Nat.lt_of_lt_of_le hq hnext) ho₂
      obtain ⟨o, ho, hages'⟩ := hold o₁ ho₁
      exact ⟨o, ho, hages'.trans hages⟩
    · rintro k₁ k₂ _ _ _ _ hacc ⟨hnext, hold⟩
      refine ⟨hacc.nextPid ▸ hnext, fun o₂ ho₂ => hold o₂ ?_⟩
      rw [← hacc.stays.keeps.outline q]
      exact ho₂
  exact hall.2 o' ho

/-- An access lies in the address space of its process. -/
theorem Accessed.vpn_lt (h : Accessed pins pid v f write k k') :
    ∃ o, k.residency.outline? pid = some o ∧ v < o.readOnly.length := by
  obtain ⟨e, he, -⟩ := h.page
  obtain ⟨p, hp, -, hentry⟩ := Residency.page?_eq_some_iff.1 he
  refine ⟨p.outline, Residency.outline?_of_process hp, ?_⟩
  rw [Process.outline, List.length_map]
  exact PageTable.lt_length hentry

/-- So do the bytes of all accesses of a course. -/
theorem Course.within (h : Course c pins k log k') (hpid : ∀ a ∈ log, a.pid < k.residency.nextPid) :
    ∀ a ∈ log, ∃ o, k.residency.outline? a.pid = some o ∧
      a.vaddr + a.bytes.length ≤ o.readOnly.length * k.memory.pageSize := by
  -- the last access lies where the process was, which is where it is at the start
  have hlast : ∀ {k₁ k₂ log pid v f write offset len}, Course c pins k log k₁ →
      Accessed pins pid v f write k₁ k₂ → pid < k.residency.nextPid →
      offset + len ≤ k₁.memory.pageSize → ∃ o, k.residency.outline? pid = some o ∧
        v * k₁.memory.pageSize + offset + len ≤ o.readOnly.length * k.memory.pageSize := by
    intro k₁ k₂ log pid v f write offset len hcourse hacc hlt hfits
    obtain ⟨o₁, ho₁, hv⟩ := hacc.vpn_lt
    obtain ⟨o, ho, hages⟩ := hcourse.outline hlt ho₁
    rw [hages.readOnly] at hv
    rw [hcourse.same.pageSize] at hfits ⊢
    refine ⟨o, ho, Nat.le_trans ?_ (Bytes.unit_le hv)⟩
    rw [Nat.add_assoc]
    exact Nat.add_le_add_left hfits _
  induction h with
  | start => simp
  | step _ _ ih => exact ih hpid
  | read hcourse hacc hfits ih =>
    intro a ha
    rcases List.mem_append.1 ha with hold | hnew
    · exact ih (fun a ha => hpid a (List.mem_append_left _ ha)) a hold
    · obtain rfl := List.mem_singleton.1 hnew
      obtain ⟨o, ho, hle⟩ := hlast hcourse hacc (hpid _ ha) hfits
      exact ⟨o, ho, Nat.le_trans (Nat.add_le_add_left (List.length_take_le _ _) _) hle⟩
  | wrote hcourse hacc _ hfits ih =>
    intro a ha
    rcases List.mem_append.1 ha with hold | hnew
    · exact ih (fun a ha => hpid a (List.mem_append_left _ ha)) a hold
    · obtain rfl := List.mem_singleton.1 hnew
      exact hlast hcourse hacc (hpid _ ha) hfits
  | spilled _ _ _ _ _ _ ih => exact ih hpid

/-! ## Faults -/

/-- Copies that are written back, and stay with their `used` bits off. -/
theorem Sound.harvest_step (h : k.Sound pins none) : Step c pins k k.harvested :=
  .settled h (List.length_map _) fun _ _ => by
    rw [Tlb.used_harvest, Tlb.dirty_harvest]
    exact ⟨rfl, rfl⟩

/-- Copies that are written back and leave the TLB. -/
theorem Sound.take_step (h : k.Sound pins none) (p : TlbSlot → Bool) : Step c pins k { k with
    tlb := (k.tlb.takeWhere p).2
    residency := k.residency.absorb ((k.tlb.takeWhere p).1.map (·.2)) } :=
  .settled h (List.length_map _) fun _ _ => by
    rw [usedIn_eq, dirtyIn_eq, h.tlb.bit_takeWhere, h.tlb.bit_takeWhere]
    exact ⟨rfl, rfl⟩

/-- A copy that makes room for the mapping of an entry. -/
theorem Sound.load_step (h : k.Sound pins none) (he : k.residency.page? pid v = some e)
    (hs : e.state = .resident f)
    (hslot : k.tlb.slots[(k.tlb.chooseSlot pid e.mapping.vpn k.choices).1]? = some slot) :
    Step c pins k (k.loaded pid e.mapping slot) := by
  refine .settled h List.length_set fun he₁ hs₁ => ⟨?_, ?_⟩
  · exact h.bit_installed (c := (·.used)) (fun _ => rfl) hslot he hs he₁ hs₁
  · exact h.bit_installed (c := (·.dirty)) (fun _ => rfl) hslot he hs he₁ hs₁

theorem Sound.swept_steps {victim : Option (Frame × Pid)} {r : Residency} (h : k.Sound pins none)
    (hswept : Residency.SweptTo pins k.harvested.residency victim r) :
    Steps c pins k (k.swept r) :=
  .tail (.single h.harvest_step) (.swept h.harvested hswept)

theorem Chosen.steps {r : Residency} (hchosen : Chosen pins k f pid v e r)
    (h : k.Sound pins none) : Steps c pins k ((k.swept r).shotDown f) :=
  (h.swept_steps hchosen.swept).tail ((h.swept hchosen.swept).take_step _)

theorem Allocated.steps {r : Except PagingError Frame} (hall : Allocated c pins k r k')
    (h : k.Sound pins none) : Steps c pins k k' := by
  cases hall with
  | pooled htake => exact .single (.pooled h htake)
  | noVictim _ _ hswept => exact h.swept_steps hswept
  | taken hchosen hvac =>
    exact (hchosen.steps h).tail (.vacated (hchosen.undisturbed h).sound hchosen.page
      hchosen.state hchosen.unpinned (fun _ hslot hv => ne_of_takeFrame hslot hv) hvac)
  | refused hchosen hvac =>
    exact (hchosen.steps h).tail (.vacated (hchosen.undisturbed h).sound hchosen.page
      hchosen.state hchosen.unpinned (fun _ hslot hv => ne_of_takeFrame hslot hv) hvac)

theorem PagedIn.steps {r : Except PagingError Mapping} (hin : PagedIn c pins pid p v e k r k')
    (h : k.Sound pins none) (hp : k.residency.outline? pid = some p.outline)
    (he : k.residency.page? pid v = some e) (hs : ∀ g, e.state ≠ .resident g) :
    Steps c pins k k' := by
  have hcounted : Steps c pins k k.faulting := .single .counted
  cases hin with
  | starved hall => exact hcounted.trans (hall.steps h.faulting)
  | loaded hall hfetch hlen =>
    obtain ⟨h₁, hpins, -, hkeeps, -, -, helse⟩ := hall.gained h.faulting
    have hloaded := Step.loaded h₁ hpins ((hkeeps.outline pid).trans hp) (helse he hs) hs hfetch hlen
    exact (hcounted.trans (hall.steps h.faulting)).tail hloaded
  | failed hall hfetch =>
    obtain ⟨h₁, hpins, -, -, -, -, helse⟩ := hall.gained h.faulting
    have hreturned := Step.returned h₁ hpins (helse he hs) hfetch
    exact (hcounted.trans (hall.steps h.faulting)).tail hreturned

theorem Resolved.steps {r : Except PagingError Mapping} (hres : Resolved c pins pid v k r k')
    (h : k.Sound pins none) : Steps c pins k k' := by
  cases hres with
  | exited => exact .refl
  | outside => exact .refl
  | there => exact .refl
  | faulted hp _ he hs hin =>
    exact hin.steps h (Residency.outline?_of_process hp) he hs

theorem Resolved.course {r : Except PagingError Mapping} (hres : Resolved c pins pid v k r k')
    (h : k.Sound pins none) : Course c pins k [] k' :=
  (hres.steps h).course

theorem Served.course {r : Except PagingError Unit} (hserved : Served c pins pid v k r k')
    (h : k.Sound pins none) : Course c pins k [] k' := by
  cases hserved with
  | failed hres => exact hres.course h
  | served hres hslot =>
    obtain ⟨⟨h₁, -⟩, e, f, he, hs, rfl⟩ := hres.ready h
    exact (hres.course h).step (h₁.load_step he hs hslot)

end Kernel

end DemandPaging
