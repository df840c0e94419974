/-
  The TLB has no bearing on paging.

  Take two machines with TLBs of any sizes and any picks for them, whose stores answer alike,
  and the same requests for both but for saves, which may stand anywhere.  The machine without
  a TLB does what both do (`follows_run`), so that both give the same answers and stay
  `Alike`: the same numbers, pages, memory and swap area, and the same bits once the copies in
  the TLB are written back.
-/
import DemandPaging.Proofs.DirectRun

namespace DemandPaging

namespace Kernel

variable {σ τ ρ : Type} {pageSize n n' : Nat} {config : Config} {store : σ} {store' : τ}
  {sections : List Section} {picks picks' : List Nat} {k : Kernel σ} {k' : Kernel τ}
  {requests requests' : List Request}

/-- The states of all pages of a process that has not been dropped. -/
def pageStates (k : Kernel σ) (pid : Pid) : Option (List PageState) :=
  (k.residency.process? pid).map fun p => p.table.entries.toList.map (·.state)

/-- Two kernels that may differ in the TLB, and in where `used` and `dirty` bits are held. -/
structure Alike [BackingStore σ] [BackingStore τ] (k : Kernel σ) (k' : Kernel τ) : Prop where
  stats : k.stats = k'.stats
  pages : k.pageStates = k'.pageStates
  memory : k.memory = k'.memory
  slots : k.swap.slots = k'.swap.slots
  store : BehaveAlike k.swap.store k'.swap.store
  sections : k.sections = k'.sections
  /-- Once the copies in the TLBs are written back, the bits are the same too. -/
  residency : k.residency.settle k.tlb.mappings = k'.residency.settle k'.tlb.mappings

/-- Two runs end alike: they stop with the same violation, or return the same answers, saves
    apart, and leave kernels that are alike. -/
inductive EndAlike [BackingStore σ] [BackingStore τ] (requests requests' : List Request) :
    Checked (List (Except PagingError Reply) × Kernel σ) →
    Checked (List (Except PagingError Reply) × Kernel τ) → Prop where
  | stopped {violation} : EndAlike requests requests' (.error violation) (.error violation)
  | returned {replies replies' k k'} (hanswers : answers requests replies = answers requests' replies')
    (halike : Alike k k') : EndAlike requests requests' (.ok (replies, k)) (.ok (replies', k'))

/-! ## What the settled kernel shows -/

section Shown

variable {t : σ → ρ}

theorem stats_settle : (k.settle t).stats = k.stats := by
  have howned : (k.settle t).residency.frames.ownedFrames = k.residency.frames.ownedFrames := by
    change ((k.residency.frames.absorb k.tlb.mappings).ownedFrames) = _
    simp only [FrameTable.ownedFrames, FrameTable.absorb, Row.countP_eq, Row.toList_map,
      List.countP_map]
    rfl
  have hpinned : (k.settle t).residency.frames.pinnedFrames = k.residency.frames.pinnedFrames := by
    change ((k.residency.frames.absorb k.tlb.mappings).pinnedFrames) = _
    simp only [FrameTable.pinnedFrames, FrameTable.absorb, Row.countP_eq, Row.toList_map,
      List.countP_map]
    rfl
  unfold stats
  rw [howned, hpinned]
  rfl

theorem pageStates_settle : (k.settle t).pageStates = k.pageStates := by
  funext pid
  have hprocess : (k.settle t).residency.process? pid = _ := Residency.process?_settle
  have hstate : PageEntry.state ∘ PageEntry.settle k.tlb.mappings = PageEntry.state :=
    funext fun _ => PageEntry.state_settle
  unfold pageStates
  rw [hprocess, Option.map_map]
  refine congrArg (fun c => (k.residency.process? pid).map c) (funext fun p => ?_)
  change (p.table.entries.map (PageEntry.settle k.tlb.mappings)).toList.map PageEntry.state = _
  rw [Row.toList_map, List.map_map, hstate]

/-- Kernels that settle to the same one are alike. -/
theorem alike_of_settle [BackingStore σ] [BackingStore τ]
    (h : k.settle behaviour = k'.settle behaviour) : Alike k k' where
  stats := by rw [← stats_settle (t := behaviour), h, stats_settle]
  pages := by rw [← pageStates_settle (t := behaviour), h, pageStates_settle]
  memory := congrArg Kernel.memory h
  slots := congrArg (fun k => k.swap.slots) h
  store := behaveAlike_iff.2 (congrArg (fun k => k.swap.store) h)
  sections := congrArg Kernel.sections h
  residency := congrArg Kernel.residency h

end Shown

/-! ## Two machines -/

/-- What a machine is made of. -/
theorem boot_parts (hk : boot pageSize config store sections picks = .ok k) :
    PhysicalMemory.create pageSize config.physPages = .ok k.memory ∧
      FrameTable.create config.physPages = .ok k.residency.frames ∧
        Tlb.create config.tlbSize = .ok k.tlb := by
  have hends : Checked.Ends (fun _ => True) (boot pageSize config store sections picks) fun k =>
      PhysicalMemory.create pageSize config.physPages = .ok k.memory ∧
        FrameTable.create config.physPages = .ok k.residency.frames ∧
          Tlb.create config.tlbSize = .ok k.tlb := by
    unfold boot
    cases hmemory : PhysicalMemory.create pageSize config.physPages with
    | error v => trivial
    | ok memory =>
      cases hframes : FrameTable.create config.physPages with
      | error v => trivial
      | ok frames =>
        cases htlb : Tlb.create config.tlbSize with
        | error v => trivial
        | ok tlb => exact ⟨rfl, rfl, rfl⟩
  exact (Checked.ends_of_eq_ok hk).1 hends

/-- There are no pages on a fresh machine that copies could belong to. -/
theorem settle_fresh {copies : List Mapping}
    (hk : boot pageSize config store sections picks = .ok k) (hpages : k.residency.processes = []) :
    k.residency.settle copies = k.residency.settle [] := by
  obtain ⟨hsound, -⟩ := (Checked.ends_of_eq_ok hk).1 ends_boot
  refine hsound.frames.settle_congr fun {pid v _ _} he _ => ?_
  cases (Residency.page?_of_nil hpages).symm.trans he

/-- Machines that differ only in their TLBs and in their stores start out as the same settled
    kernel. -/
theorem settle_boot {t : σ → ρ} {t' : τ → ρ} (ht : t store = t' store')
    (hk : boot pageSize { config with tlbSize := n } store sections picks = .ok k)
    (hk' : boot pageSize { config with tlbSize := n' } store' sections picks' = .ok k') :
    k.settle t = k'.settle t' := by
  obtain ⟨hmemory, hframes, htlb⟩ := boot_parts hk
  obtain ⟨hmemory', hframes', htlb'⟩ := boot_parts hk'
  have hsame : k.memory = k'.memory := Except.ok.inj (hmemory.symm.trans hmemory')
  have hpool : k.residency.frames = k'.residency.frames :=
    Except.ok.inj (hframes.symm.trans hframes')
  have hmade := hk
  have hmade' := hk'
  unfold boot at hmade hmade'
  rw [hmemory, hframes, htlb] at hmade
  rw [hmemory', hframes', htlb'] at hmade'
  have hleft := Except.ok.inj hmade
  have hright := Except.ok.inj hmade'
  have hresidency : k.residency.settle k.tlb.mappings = k'.residency.settle k'.tlb.mappings := by
    rw [settle_fresh hk (congrArg (·.residency.processes) hleft).symm,
      settle_fresh hk' (congrArg (·.residency.processes) hright).symm, ← hleft, ← hright, hpool]
  have hswap : k.swap.mapStore t = k'.swap.mapStore t' := by
    rw [← hleft, ← hright, SwapSpace.mapStore, SwapSpace.mapStore, ht]
  unfold settle
  rw [hresidency, hswap, ← hleft, ← hright, hsame]

variable [BackingStore σ] [BackingStore τ]

/-- Neither the size of the TLB, nor the picks for it, nor saves are seen in the answers of a
    run or in what it leaves; every part of a run from its start on is a run, too. -/
theorem run_independent (hk : boot pageSize { config with tlbSize := n } store sections picks = .ok k)
    (hk' : boot pageSize { config with tlbSize := n' } store' sections picks' = .ok k')
    (hstores : BehaveAlike store store')
    (hrequests : requests.filter (!·.isSave) = requests'.filter (!·.isSave)) :
    EndAlike requests requests' ((run requests).run k) ((run requests').run k') := by
  obtain ⟨hsound, hsize⟩ := (Checked.ends_of_eq_ok hk).1 ends_boot
  obtain ⟨hsound', hsize'⟩ := (Checked.ends_of_eq_ok hk').1 ends_boot
  have hfollows : Follows (settle behaviour) (answers requests) (run requests)
      (directRun (requests.filter (!·.isSave))) k := follows_run carries_behaviour hsound hsize
  have hfollows' : Follows (settle behaviour) (answers requests') (run requests')
      (directRun (requests.filter (!·.isSave))) k' :=
    hrequests ▸ follows_run carries_behaviour hsound' hsize'
  have hagree := hfollows.agree hfollows' (settle_boot (behaveAlike_iff.1 hstores) hk hk')
  cases hrun : (run requests).run k with
  | error violation =>
    cases hrun' : (run requests').run k' with
    | error violation' =>
      rw [hrun, hrun'] at hagree
      cases hagree
      exact .stopped
    | ok r' =>
      rw [hrun, hrun'] at hagree
      cases hagree
  | ok r =>
    cases hrun' : (run requests').run k' with
    | error violation' =>
      rw [hrun, hrun'] at hagree
      cases hagree
    | ok r' =>
      rw [hrun, hrun'] at hagree
      obtain ⟨hanswers, hleft⟩ := Prod.mk.inj (Except.ok.inj hagree)
      exact .returned hanswers (alike_of_settle hleft)

/-- Two stack pages share one frame: with one slot in the TLB and no save, or with three slots,
    a pick and a save in between. -/
theorem run_independent_of_save : ∃ k k' : Kernel MemoryStore,
    boot 4 { physPages := 1, tlbSize := 1, stackPages := 2 } {} [] [] = .ok k ∧
    boot 4 { physPages := 1, tlbSize := 3, stackPages := 2 } {} [] [2] = .ok k' ∧
    EndAlike
      [.spawn [], .process 1 (.storeByte 0 7), .process 1 (.loadByte 4), .process 1 (.loadByte 0)]
      [.spawn [], .process 1 (.storeByte 0 7), .process 1 .saveState, .process 1 (.loadByte 4),
        .process 1 (.loadByte 0)]
      ((run [.spawn [], .process 1 (.storeByte 0 7), .process 1 (.loadByte 4),
        .process 1 (.loadByte 0)]).run k)
      ((run [.spawn [], .process 1 (.storeByte 0 7), .process 1 .saveState,
        .process 1 (.loadByte 4), .process 1 (.loadByte 0)]).run k') := by
  obtain ⟨k, hk⟩ : ∃ k : Kernel MemoryStore,
      boot 4 { physPages := 1, tlbSize := 1, stackPages := 2 } {} [] [] = .ok k := ⟨_, rfl⟩
  obtain ⟨k', hk'⟩ : ∃ k' : Kernel MemoryStore,
      boot 4 { physPages := 1, tlbSize := 3, stackPages := 2 } {} [] [2] = .ok k' := ⟨_, rfl⟩
  let config : Config := { physPages := 1, stackPages := 2 }
  have hslot : boot 4 { config with tlbSize := 1 } {} [] [] = .ok k := hk
  have hslots : boot 4 { config with tlbSize := 3 } {} [] [2] = .ok k' := hk'
  exact ⟨k, k', hk, hk', run_independent hslot hslots (fun _ _ => rfl) rfl⟩

end Kernel

end DemandPaging
