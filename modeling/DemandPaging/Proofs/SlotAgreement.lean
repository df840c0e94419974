/-
  What always holds of the swap slots.

  `SlotsAgree` is the state of the swap area of a reachable kernel as the page tables see it: the
  slots that have an owner and the pages that were swapped out are in bijection.  So the number
  of slots in use is the number of such pages, and a process that has given its pages back has
  no slot left.

  * `Reachable.slotsAgree`: slots and page tables.
-/
import DemandPaging.Proofs.Agreement
import DemandPaging.Proofs.SlotOwners
import Mathlib.Algebra.GroupWithZero.Nat
import Mathlib.Data.List.Nodup

namespace DemandPaging

/-- What holds of any two items, the first before the second, holds pairwise. -/
theorem pairwise_of_getElem? {α : Type} {R : α → α → Prop} {l : List α}
    (h : ∀ {i j : Nat} {a b}, i < j → l[i]? = some a → l[j]? = some b → R a b) : l.Pairwise R := by
  rw [List.pairwise_iff_getElem]
  intro i j hi hj hij
  exact h hij (List.getElem?_eq_getElem hi) (List.getElem?_eq_getElem hj)

/-! ## Pages in slots -/

/-- The slot that the content of a page is in. -/
def PageEntry.slot? (e : PageEntry) : Option SlotIndex :=
  match e.state with
  | .swapped s => some s
  | _ => none

theorem PageEntry.slot?_eq_some_iff {e : PageEntry} {s : SlotIndex} :
    e.slot? = some s ↔ e.state = .swapped s := by
  unfold slot?
  cases e.state <;> simp

/-- The slots of a process, in the order of its pages. -/
def Process.slots (p : Process) : List SlotIndex := p.table.entries.toList.filterMap (·.slot?)

theorem Process.length_slots (p : Process) : p.slots.length = p.swappedPages := by
  rw [slots, swappedPages, Row.countP_eq, List.length_filterMap_eq_countP]
  refine List.countP_congr fun e _ => ?_
  unfold PageEntry.slot? PageState.isSwapped
  cases e.state <;> simp

theorem Process.mem_slots {p : Process} {s : SlotIndex} :
    s ∈ p.slots ↔ ∃ v e, p.table.find? v = some e ∧ e.state = .swapped s := by
  rw [slots, List.mem_filterMap]
  constructor
  · rintro ⟨e, he, hs⟩
    obtain ⟨v, hv⟩ := List.mem_iff_getElem?.1 he
    exact ⟨v, e, PageTable.find?_eq.trans hv, PageEntry.slot?_eq_some_iff.1 hs⟩
  · rintro ⟨v, e, he, hs⟩
    exact ⟨e, List.mem_of_getElem? (PageTable.find?_eq ▸ he), PageEntry.slot?_eq_some_iff.2 hs⟩

/-- The processes that have not exited. -/
def Residency.live (r : Residency) : List Process :=
  r.processes.filterMap (·.filter (!·.exited))

theorem Residency.mem_live {r : Residency} {p : Process} :
    p ∈ r.live ↔ ∃ pid, r.process? pid = some p ∧ p.exited = false := by
  rw [live, List.mem_filterMap]
  constructor
  · rintro ⟨o, ho, hp⟩
    obtain ⟨n, hn⟩ := List.mem_iff_getElem?.1 ho
    rw [Option.filter_eq_some_iff] at hp
    exact ⟨n + 1, by rw [process?, hn, hp.1]; rfl, by simpa using hp.2⟩
  · rintro ⟨pid, hp, hlive⟩
    cases pid with
    | zero => cases hp
    | succ n =>
      obtain ⟨o, ho, rfl⟩ : ∃ o, r.processes[n]? = some o ∧ o = some p := by
        rw [process?, Option.join_eq_some_iff] at hp
        exact ⟨_, hp, rfl⟩
      exact ⟨_, List.mem_of_getElem? ho, by simp [Option.filter, hlive]⟩

namespace Kernel

variable {σ : Type} {k : Kernel σ} {pins : Frame → Nat}

/-- The slots of the swap area and the page tables of a kernel agree. -/
structure SlotsAgree (k : Kernel σ) : Prop where
  /-- A slot belongs to a page exactly when the page, of a live process, is in the slot. -/
  owned_iff : ∀ {s pid v}, k.swap.slots.owner s = some ⟨pid, v⟩ ↔
    ∃ p e, k.residency.process? pid = some p ∧ p.exited = false ∧ p.table.find? v = some e ∧
      e.state = .swapped s
  /-- No slot is in two entries, of live processes or of others. -/
  once : ∀ {pid p v e q p' w e' s}, k.residency.process? pid = some p →
    p.table.find? v = some e → e.state = .swapped s → k.residency.process? q = some p' →
    p'.table.find? w = some e' → e'.state = .swapped s → q = pid ∧ w = v
  /-- No slot is lost. -/
  inUse_eq : k.stats.swapSlotsInUse = (k.residency.live.map Process.swappedPages).sum
  /-- A process that exits gives all its slots back with its pages, unless these are too many to be
      counted: none is left to be found by its owner. -/
  tracked : ∀ {pid p}, k.residency.process? pid = some p → p.exited = false →
    Checked.Ends (fun v => v = .overflow ∧ ¬ p.Releasable)
      (releasePages p.table { frames := k.residency.frames, slots := k.swap.slots })
      fun held => (held.slots.deallocateOwnedBy pid).1 = 0

/-- A page that is in a slot belongs to a live process. -/
theorem Sound.live_of_swapped {pid : Pid} {p : Process} {v : Vpn} {e : PageEntry} {s : SlotIndex}
    (h : k.Sound pins none) (hp : k.residency.process? pid = some p)
    (he : p.table.find? v = some e) (hs : e.state = .swapped s) :
    k.residency.page? pid v = some e ∧ p.exited = false :=
  h.live_of_content hp he (by simp [hs])

/-- The owner of a slot is a page that is in it. -/
theorem Sound.owner_eq_iff {pid : Pid} {v : Vpn} {s : SlotIndex} (h : k.Sound pins none)
    (hexact : k.swap.slots.Exact k.residency) :
    k.swap.slots.owner s = some ⟨pid, v⟩ ↔
      ∃ p e, k.residency.process? pid = some p ∧ p.exited = false ∧ p.table.find? v = some e ∧
        e.state = .swapped s := by
  rw [show k.swap.slots.owner s = some ⟨pid, v⟩ ↔ _ from ⟨hexact s pid v, h.slots s pid v⟩,
    Option.map_eq_some_iff]
  constructor
  · rintro ⟨e, he, hs⟩
    obtain ⟨p, hp, -, hentry⟩ := Residency.page?_eq_some_iff.1 he
    exact ⟨p, e, hp, (h.live_of_swapped hp hentry hs).2, hentry, hs⟩
  · rintro ⟨p, e, hp, -, he, hs⟩
    exact ⟨e, (h.live_of_swapped hp he hs).1, hs⟩

/-- Two entries that are in one slot are the same. -/
theorem Sound.slot_once {pid q : Pid} {p p' : Process} {v w : Vpn} {e e' : PageEntry}
    {s : SlotIndex} (h : k.Sound pins none) (hp : k.residency.process? pid = some p)
    (he : p.table.find? v = some e) (hs : e.state = .swapped s)
    (hp' : k.residency.process? q = some p') (he' : p'.table.find? w = some e')
    (hs' : e'.state = .swapped s) : q = pid ∧ w = v := by
  have hfirst := h.slots s pid v (by rw [(h.live_of_swapped hp he hs).1, Option.map_some, hs])
  have hsecond := h.slots s q w (by rw [(h.live_of_swapped hp' he' hs').1, Option.map_some, hs'])
  cases hfirst.symm.trans hsecond
  exact ⟨rfl, rfl⟩

/-- The slots that are in use are those of the pages of live processes. -/
theorem Sound.mem_slots_iff {s : SlotIndex} (h : k.Sound pins none)
    (hexact : k.swap.slots.Exact k.residency) :
    s ∈ k.residency.live.flatMap Process.slots ↔
      (k.swap.slots.owner s).isSome = true := by
  rw [Option.isSome_iff_exists, List.mem_flatMap]
  constructor
  · rintro ⟨p, hp, hs⟩
    obtain ⟨pid, hpid, hlive⟩ := Residency.mem_live.1 hp
    obtain ⟨v, e, he, hstate⟩ := Process.mem_slots.1 hs
    exact ⟨⟨pid, v⟩, (h.owner_eq_iff hexact).2 ⟨p, e, hpid, hlive, he, hstate⟩⟩
  · rintro ⟨⟨pid, v⟩, ho⟩
    obtain ⟨p, e, hpid, hlive, he, hstate⟩ := (h.owner_eq_iff hexact).1 ho
    exact ⟨p, Residency.mem_live.2 ⟨pid, hpid, hlive⟩, Process.mem_slots.2 ⟨v, e, he, hstate⟩⟩

/-- No slot is listed twice: neither by one process nor by two. -/
theorem Sound.nodup_slots (h : k.Sound pins none) :
    (k.residency.live.flatMap Process.slots).Nodup := by
  rw [List.nodup_flatMap]
  constructor
  · intro p hp
    obtain ⟨pid, hpid, -⟩ := Residency.mem_live.1 hp
    rw [Process.slots, List.Nodup, List.pairwise_filterMap]
    refine pairwise_of_getElem? fun {v w} {e e'} hlt he he' => ?_
    intro s hs t ht heq
    rw [PageEntry.slot?_eq_some_iff] at hs ht
    have hsame := (h.slot_once hpid (PageTable.find?_eq.trans he) hs hpid
      (PageTable.find?_eq.trans he') (heq ▸ ht)).2
    exact absurd hsame (Nat.ne_of_gt hlt)
  · rw [Residency.live, List.pairwise_filterMap]
    refine pairwise_of_getElem? fun {n m} {o o'} hlt ho ho' => ?_
    intro p hp p' hp' s hs hs'
    rw [Option.filter_eq_some_iff] at hp hp'
    have hpid : k.residency.process? (n + 1) = some p := by
      rw [Residency.process?, ho, hp.1]
      rfl
    have hpid' : k.residency.process? (m + 1) = some p' := by
      rw [Residency.process?, ho', hp'.1]
      rfl
    obtain ⟨v, e, he, hstate⟩ := Process.mem_slots.1 hs
    obtain ⟨w, e', he', hstate'⟩ := Process.mem_slots.1 hs'
    have hsame := (h.slot_once hpid he hstate hpid' he' hstate').1
    exact absurd (Nat.succ.inj hsame) (Nat.ne_of_gt hlt)

/-- As many slots are in use as pages are swapped out. -/
theorem Sound.inUse_eq (h : k.Sound pins none) (hexact : k.swap.slots.Exact k.residency) :
    k.swap.slots.inUse = (k.residency.live.map Process.swappedPages).sum := by
  have hcount := SlotTable.inUse_eq_length h.nodup_slots fun s => h.mem_slots_iff hexact
  have hlength : List.length ∘ Process.slots = Process.swappedPages :=
    funext Process.length_slots
  rw [hcount, List.length_flatMap, ← hlength]
  rfl

/-- A process that has given its pages back has no slots. -/
theorem Sound.tracked {pid : Pid} {p : Process} (h : k.Sound pins none)
    (hexact : k.swap.slots.Exact k.residency) (hp : k.residency.process? pid = some p)
    (hlive : p.exited = false) :
    Checked.Ends (fun v => v = .overflow ∧ ¬ p.Releasable)
      (releasePages p.table { frames := k.residency.frames, slots := k.swap.slots })
      fun held => (held.slots.deallocateOwnedBy pid).1 = 0 := by
  have hreg := h.registered hp hlive
  obtain ⟨r, slots, hrun, hrel⟩ := h.releasePages_eq hp hlive
  rw [hrun]
  by_cases hmany : ¬ p.Releasable
  · rw [counted_of_not_releasable hmany]
    exact ⟨rfl, hmany⟩
  rw [counted_of_releasable (Classical.not_not.1 hmany), Checked.ends_ok,
    SlotTable.deallocateOwnedBy, Row.countP_eq, List.countP_eq_zero]
  intro o ho hown
  obtain ⟨s, hs⟩ := List.mem_iff_getElem?.1 ho
  -- a slot of the process would hold a page that has been given back
  obtain ⟨v, rfl⟩ : ∃ v, o = some ⟨pid, v⟩ := by
    rw [SlotTable.belongsTo, Option.any_eq_true] at hown
    obtain ⟨⟨q, v⟩, rfl, hq⟩ := hown
    exact ⟨v, by rw [show q = pid by simpa using hq]⟩
  have howner : slots.owner s = some ⟨pid, v⟩ := by
    rw [SlotTable.owner_eq, hs]
    rfl
  have hstate := hexact s pid v (hrel.owner_eq_some howner)
  obtain ⟨e, he, -⟩ := Option.map_eq_some_iff.1 hstate
  have hv := (Residency.page?_of_process hp hreg).symm.trans he
  have hin : v < p.table.entries.toList.length := PageTable.lt_length hv
  cases (hrel.freed v s (Nat.zero_le v) hin hstate).symm.trans howner

theorem SlotsAgree.of_sound (h : k.Sound pins none) (hexact : k.swap.slots.Exact k.residency) :
    k.SlotsAgree where
  owned_iff := h.owner_eq_iff hexact
  once := h.slot_once
  inUse_eq := h.inUse_eq hexact
  tracked := h.tracked hexact

section Reachable

variable [BackingStore σ]

/-- In every reachable kernel, whatever the store failed to do on the way, the slots of the swap
    area and the pages that were swapped out are in bijection. -/
theorem Reachable.slotsAgree (h : k.Reachable) : k.SlotsAgree := by
  obtain ⟨pins, hsound, -⟩ := h.sound
  exact .of_sound hsound h.exact

/-- Two processes share one frame.  The store refuses the second page written out, and does not
    deliver the first page read back: slots and pages agree in the end. -/
theorem Reachable.slotsAgree_of_refusals : ∃ k : Kernel MemoryStore,
    k.swap.slots.slots.toList = [some ⟨1, 0⟩, some ⟨2, 1⟩] ∧ k.SlotsAgree := by
  have hrun : (boot 4 { physPages := 1, tlbSize := 1, stackPages := 3 }
      ({ failingWrites := [1], failingReads := [0] } : MemoryStore) [] [] >>= fun k =>
        (fun r => r.2.swap.slots.slots.toList) <$> (Kernel.run [.spawn [], .spawn [],
          .process 1 (.storeByte 0 7), .process 2 (.storeByte 4 9), .process 2 (.loadByte 0),
          .process 1 (.loadByte 0)]).run k).toOption = some [some ⟨1, 0⟩, some ⟨2, 1⟩] := by
    decide +kernel
  obtain ⟨k, hk, hslots⟩ := Reachable.exists_of_run (f := fun k => k.swap.slots.slots.toList) hrun
  have hagree : k.SlotsAgree := Reachable.slotsAgree hk
  exact ⟨k, hslots, hagree⟩

end Reachable

end Kernel

end DemandPaging
