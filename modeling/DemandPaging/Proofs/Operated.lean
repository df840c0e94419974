/-
  What an operation does to the kernel.

  An operation that returns was a course of steps and accesses; beyond that it has at most taken
  a pin, or given one back (`Operated`).  What courses and pins preserve, every operation
  preserves.

  Slots may also be taken from the swap area directly.  What that preserves too holds of every
  kernel that a kernel can become (`Onward.preserves`).
-/
import DemandPaging.Proofs.Reachable
import DemandPaging.Proofs.Transfers
import Mathlib.Algebra.GroupWithZero.Nat
import Mathlib.Logic.Relation

namespace DemandPaging.Kernel

variable {σ : Type} {c : Conduct σ} {pins pins' : Frame → Nat} {k k' : Kernel σ} {op : Operation}

/-- How an operation may change the kernel, and the pins that are taken afterwards. -/
inductive Operated (c : Conduct σ) (pins : Frame → Nat) (k : Kernel σ) :
    Operation → (Frame → Nat) → Kernel σ → Prop where
  | ran {op : Operation} {log : List Access} {k' : Kernel σ} (hsound : k'.Sound pins none)
    (hcourse : Course c pins k log k') : Operated c pins k op pins k'
  | pinned {pid : Pid} {v : Vpn} {write : Bool} {e : PageEntry} {f : Frame} {k₁ : Kernel σ}
    (hsound : k₁.Sound pins none) (hcourse : Course c pins k [] k₁)
    (he : k₁.residency.page? pid v = some e) (hs : e.state = .resident f)
    (hwrite : write = true → e.readOnly = false) :
    Operated c pins k (.pin pid v write) (addPin pins f)
      (k₁.referenced pid v (e.touch write) f (pins f + 1))
  | unpinned {f : Frame} {k' : Kernel σ} (hun : Unpinned pins f k k') :
    Operated c pins k (.unpin f) (dropPin pins f) k'

theorem Operated.sound (hop : Operated c pins k op pins' k') (h : k.Sound pins none) :
    k'.Sound pins' none := by
  cases hop with
  | ran hsound => exact hsound
  | pinned hsound _ he hs hwrite => exact hsound.referenced he hs hwrite
  | unpinned hun => exact hun.sound h

theorem Operated.same (hop : Operated c pins k op pins' k') : k.SameMachine k' := by
  cases hop with
  | ran _ hcourse => exact hcourse.same
  | pinned _ hcourse _ _ _ =>
    obtain ⟨hconfig, himages, hpageSize, htlb⟩ := hcourse.same
    exact ⟨hconfig, himages, hpageSize, htlb⟩
  | unpinned hun => exact hun.keeps.same

/-- Process numbers are not given back. -/
theorem Operated.nextPid_le (hop : Operated c pins k op pins' k') :
    k.residency.nextPid ≤ k'.residency.nextPid := by
  cases hop with
  | ran _ hcourse => exact hcourse.nextPid_le
  | pinned _ hcourse _ _ _ => exact Residency.nextPid_link.symm ▸ hcourse.nextPid_le
  | unpinned hun => cases hun <;> exact Nat.le_refl _

/-- A process that was there is what it was, but older. -/
theorem Operated.outline {q : Pid} {o' : Process.Outline} (hop : Operated c pins k op pins' k')
    (hq : q < k.residency.nextPid) (ho : k'.residency.outline? q = some o') :
    ∃ o, k.residency.outline? q = some o ∧ o.Ages o' := by
  cases hop with
  | ran _ hcourse => exact hcourse.outline hq ho
  | @pinned pid v write e f k₁ _ hcourse he _ _ =>
    have hsame : (k₁.referenced pid v (e.touch write) f (pins f + 1)).residency.outline? q =
        k₁.residency.outline? q := Residency.outline?_link he rfl
    exact hcourse.outline hq (hsame.symm.trans ho)
  | unpinned hun => exact ⟨o', (hun.keeps.outline q).symm.trans ho, .refl⟩

/-- An operation that returns has done one of these things. -/
theorem ends_operated [BackingStore σ] (hc : Tolerated c (fun _ => True) k)
    (h : k.Sound pins none) (hsize : 0 < k.tlb.slots.length) :
    Ends (fun _ => True) (operate op).run k fun _ k' => ∃ pins', Operated c pins k op pins' k' := by
  have hpin : ∀ f, pins f + 1 < limit32 ∨ True := fun _ => .inr trivial
  cases op with
  | request r =>
    have hspawn : ∀ sections, r = .spawn sections →
        Ends (fun _ => True) (spawn (σ := σ) sections).run k fun _ _ => True :=
      fun _ _ => Checked.ends_true fun _ _ => trivial
    refine ends_map.2 (((ends_perform hc h hsize hpin (fun _ _ => .any) hspawn).and
      (ends_perform_course hc h hsize hpin (fun _ _ => .any) hspawn)).imp ?_)
    rintro r k' ⟨hdone, log, hcourse, -⟩
    exact ⟨pins, .ran hdone.sound hcourse⟩
  | pin q w write =>
    refine ends_map.2 (ends_pinPage hc h (fun _ _ => hpin _) fun r k' hpage => ?_)
    cases hpage with
    | failed hres => exact ⟨pins, .ran (hres.stays h).sound (hres.course h)⟩
    | refused hres => exact ⟨pins, .ran (hres.ready h).toStays.sound (hres.course h)⟩
    | pinned hres he hs hwrite =>
      exact ⟨_, .pinned (hres.ready h).toStays.sound (hres.course h) he hs hwrite⟩
  | unpin f => exact ends_unpin_or_stop h fun k' hun => ⟨_, .unpinned hun⟩

section Reachable

variable [BackingStore σ]

/-- The size of a page is a power of two. -/
theorem Reachable.pageSize (h : k.Reachable) : 2 ^ k.memory.pageSize.log2 = k.memory.pageSize := by
  induction h with
  | fresh h =>
    have hfresh := (Checked.ends_of_eq_ok h).1 ends_boot_fresh
    rw [hfresh.pageSize, hfresh.power]
  | step h hrun ih =>
    obtain ⟨pins, hsound, htlb⟩ := h.sound
    obtain ⟨pins', hop⟩ := (ends_operated .any hsound htlb).of_run hrun
    rw [hop.same.pageSize, ih]

/-- Pages that a word fits into are made up of words. -/
theorem Reachable.words (h : k.Reachable) (hsize : Bytes.wordSize ≤ k.memory.pageSize) :
    Bytes.wordSize ∣ k.memory.pageSize := by
  obtain ⟨_, hsound, -⟩ := h.sound
  have hlog : 2 ≤ k.memory.pageSize.log2 :=
    (Nat.le_log2 (Nat.ne_of_gt hsound.memory.pageSize_pos)).2 hsize
  rw [← h.pageSize]
  exact Nat.pow_dvd_pow 2 hlog

end Reachable

/-! ## What may happen -/

/-- A page that is in a slot keeps it when another slot is taken. -/
theorem Sound.allocated {owner : SlotOwner} (h : k.Sound pins none) :
    Sound pins none { k with swap := (k.swap.allocate owner).2 } where
  frames := h.frames
  tlb := h.tlb
  slots := by
    intro s q v hstate
    have hold := h.slots s q v hstate
    refine SlotTable.owner_allocate.trans ?_
    rw [if_neg, hold]
    rintro rfl
    cases SlotTable.owner_next.symm.trans hold
  memory := h.memory
  numFrames := h.numFrames
  swapSize := h.swapSize
  physPages := h.physPages
  divisible := h.divisible
  laid := h.laid

section Runs

variable [BackingStore σ]

/-- What may happen to a kernel: an operation returns, or a slot is taken from the swap area
    without a page to go into it. -/
inductive Advances (k : Kernel σ) : Kernel σ → Prop where
  | operated {op : Operation} {r : Except PagingError Unit} {k' : Kernel σ}
    (hrun : (operate op).run.run k = .ok (r, k')) : Advances k k'
  | allocated (owner : SlotOwner) : Advances k { k with swap := (k.swap.allocate owner).2 }

/-- The kernels that a kernel can become. -/
def Onward : Kernel σ → Kernel σ → Prop := Relation.ReflTransGen Advances

/-- What operations preserve, and the taking of slots, is preserved by all that happens; kernels
    stay sound.  The induction is on the steps; the ledger of pins changes along the way. -/
theorem Onward.preserves {I : Kernel σ → Prop} (hc : c.Holds fun _ => True) (hrun : Onward k k')
    (h : k.Sound pins none) (htlb : 0 < k.tlb.slots.length) (hI : I k)
    (hop : ∀ {pins pins' op k k'}, Operated c pins k op pins' k' → I k → I k')
    (halloc : ∀ {k owner}, I k → I { k with swap := (k.swap.allocate owner).2 }) :
    ∃ pins', k'.Sound pins' none ∧ 0 < k'.tlb.slots.length ∧ I k' := by
  induction hrun with
  | refl => exact ⟨pins, h, htlb, hI⟩
  | tail _ hstep ih =>
    obtain ⟨pins₁, h₁, htlb₁, hI₁⟩ := ih
    cases hstep with
    | operated hrun =>
      obtain ⟨pins₂, hdone⟩ := (ends_operated (.of_holds hc) h₁ htlb₁).of_run hrun
      exact ⟨pins₂, hdone.sound h₁, hdone.same.tlbSize ▸ htlb₁, hop hdone hI₁⟩
    | allocated => exact ⟨pins₁, h₁.allocated, htlb₁, halloc hI₁⟩

end Runs

end DemandPaging.Kernel
