/-
  Stores that note which bytes they are asked for.

  A `Watched` store does what the store inside it does, and notes every transfer that is asked of
  it before it is tried, so that those that fail are noted as well.  Calls on a swap area do the
  same whether its store is watched or not, so a history can be told again on a watched store, to
  see where its transfers went.

  * `follows_call`: calls on a swap area, seen through what its store does;
  * `CallHistory.of_mapStore`: histories, seen so.
-/
import DemandPaging.Proofs.Behaviour
import DemandPaging.Proofs.SlotHistory

namespace DemandPaging

/-! ## Stores -/

/-- The bytes that a transfer is about. -/
structure Transfer where
  offset : Nat
  len : Nat
deriving DecidableEq, Repr

/-- The first byte behind a transfer. -/
def Transfer.stop (t : Transfer) : Nat := t.offset + t.len

/-- A store with the transfers that were asked of it, the last one first. -/
structure Watched (σ : Type) where
  store : σ
  transfers : List Transfer := []

namespace Watched

variable {σ : Type} {α : Type} {t : Transfer} {act : Action σ StoreError α} {w : Watched σ}

/-- Notes a transfer, and tries it. -/
def watch (t : Transfer) (act : Action σ StoreError α) : Action (Watched σ) StoreError α := do
  modify fun w => { w with transfers := t :: w.transfers }
  Action.within (·.store) (fun store w => { w with store }) id act

instance [BackingStore σ] : BackingStore (Watched σ) where
  read offset len := watch ⟨offset, len⟩ (BackingStore.read offset len)
  write offset src := watch ⟨offset, src.length⟩ (BackingStore.write offset src)

/-- However a transfer ends, it was noted. -/
theorem ends_watch :
    Ends (fun _ => True) (watch t act).run w fun _ w' => w'.transfers = t :: w.transfers := by
  unfold watch
  simp only [ends_bind, ends_modify, ends_within]
  exact Checked.ends_true fun _ _ => trivial

/-- The store inside does what it does unwatched. -/
theorem follows_watch : Tracks store id (watch t act) act w :=
  follows_modify_left rfl (follows_within_left (g := id) follows_self rfl fun _ => rfl)

theorem carries [BackingStore σ] : Carries (store (σ := σ)) :=
  ⟨fun _ _ _ => follows_watch, fun _ _ _ => follows_watch⟩

/-- Transfers are noted one by one. -/
def conduct (σ : Type) : Conduct (Watched σ) where
  reads w offset len _ w' := w'.transfers = ⟨offset, len⟩ :: w.transfers
  writes w offset src _ w' := w'.transfers = ⟨offset, src.length⟩ :: w.transfers

theorem conduct_holds [BackingStore σ] : (conduct σ).Holds fun _ => True :=
  ⟨fun _ _ _ => ends_watch, fun _ _ _ => ends_watch, fun _ => .inr trivial⟩

end Watched

namespace SwapSpace

/-! ## Calls -/

section Calls

variable {σ τ : Type} [BackingStore σ] [BackingStore τ] {t : σ → τ} {swap : SwapSpace σ}
  {call : Call}

/-- A call does the same on another store, if reads and writes do. -/
theorem follows_call (ht : Carries t) :
    Tracks (mapStore t) id (perform call) (perform call) swap := by
  cases call with
  | allocate owner => exact follows_get (follows_set rfl (follows_pure rfl))
  | free slot =>
    exact follows_get (follows_lift free_mapStore fun _ _ => follows_set rfl (follows_pure rfl))
  | freeAll pid => exact follows_get (follows_set rfl (follows_pure rfl))
  | writePage slot page =>
    refine follows_map (w := id) (follows_get ?_) fun _ => rfl
    exact follows_require fun _ => follows_require fun _ => follows_transferOut ht
  | readPage slot len =>
    refine follows_map (w := id) (follows_get ?_) fun _ => rfl
    exact follows_require fun _ => follows_require fun _ => follows_transferIn ht
  | swapOut owner page => exact follows_map (follows_swapOut ht) fun _ => rfl
  | swapIn slot len => exact follows_map (follows_swapIn ht) fun _ => rfl

/-- A history that is seen through `t` has happened to the swap area behind it. -/
theorem CallHistory.of_mapStore {start : SwapSpace σ} {seen : SwapSpace τ} {calls : Calls}
    (ht : Carries t) (h : CallHistory (start.mapStore t) calls seen) :
    ∃ swap, CallHistory start calls swap ∧ swap.mapStore t = seen := by
  induction h with
  | start => exact ⟨start, .start, rfl⟩
  | call _ hrun ih =>
    obtain ⟨swap, history, rfl⟩ := ih
    obtain ⟨r, swap', hown, rfl, rfl⟩ := (follows_call ht).exists_of_eq_ok hrun
    refine ⟨swap', ?_, rfl⟩
    cases r <;> exact history.call hown

end Calls

end SwapSpace

end DemandPaging
