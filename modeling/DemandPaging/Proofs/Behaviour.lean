/-
  What can be told of a store from outside.

  The `Behaviour` of a store says how it answers each call after any calls before.  Behaviours
  are stores themselves, and `behaviour` carries every call over (`follows_perform`), so that
  the swap area on a store does what the one on its behaviour does.
-/
import DemandPaging.Proofs.Simulation
import DemandPaging.SwapSpace

namespace DemandPaging

/-- A call of a store. -/
inductive StoreCall where
  | read (offset len : Nat)
  | write (offset : Nat) (src : Bytes)
deriving DecidableEq, Repr

/-- Carries out a call.  A write answers no bytes. -/
def StoreCall.perform {σ : Type} [BackingStore σ] : StoreCall → Action σ StoreError Bytes
  | read offset len => BackingStore.read offset len
  | write offset src => (fun () => []) <$> BackingStore.write offset src

/-- The answer to each call, after some calls that nobody looked at. -/
structure Behaviour where
  answer : (before : List StoreCall) → StoreCall → Checked (Except StoreError Bytes)

namespace Behaviour

/-- The answer to a call, and the behaviour after it. -/
def perform (call : StoreCall) : Action Behaviour StoreError Bytes := do
  let b ← get
  let answer ← (b.answer [] call : Checked (Except StoreError Bytes))
  set (Behaviour.mk fun before => b.answer (call :: before))
  Action.ofExcept id answer

theorem run_perform {call : StoreCall} {b : Behaviour} :
    (perform call).run.run b =
      (fun r => (r, ⟨fun before => b.answer (call :: before)⟩)) <$> b.answer [] call := by
  have hget : (perform call).run.run b = ((liftM (b.answer [] call) >>= fun r => do
      set (Behaviour.mk fun before => b.answer (call :: before))
      Action.ofExcept id r : Action Behaviour StoreError Bytes)).run.run b := rfl
  rw [hget]
  cases b.answer [] call with
  | error v => rfl
  | ok r => cases r <;> rfl

instance : BackingStore Behaviour where
  read offset len := perform (.read offset len)
  write offset src := (fun _ => ()) <$> perform (.write offset src)

end Behaviour

variable {σ τ : Type} [BackingStore σ] [BackingStore τ]

/-- The answer of a store to a call after some others. -/
def answerAfter (store : σ) : List StoreCall → StoreCall → Checked (Except StoreError Bytes)
  | [], call => Prod.fst <$> call.perform.run.run store
  | c :: before, call => do
    let (_, store) ← c.perform.run.run store
    answerAfter store before call

/-- What can be told of a store from outside. -/
def behaviour (store : σ) : Behaviour := ⟨answerAfter store⟩

/-- Two stores answer every call alike, after any calls. -/
def BehaveAlike (store : σ) (store' : τ) : Prop :=
  ∀ before call, answerAfter store before call = answerAfter store' before call

theorem behaveAlike_iff {store : σ} {store' : τ} :
    BehaveAlike store store' ↔ behaviour store = behaviour store' := by
  constructor
  · intro h
    exact congrArg Behaviour.mk (funext fun before => funext fun call => h before call)
  · intro h before call
    exact congrFun (congrFun (congrArg Behaviour.answer h) before) call

/-- Each answer is the one given in advance, and what is left to tell is told of the store
    that the call ends with. -/
theorem follows_perform {call : StoreCall} {store : σ} :
    Tracks behaviour id call.perform (Behaviour.perform call) store := by
  have hfirst : (behaviour store).answer [] call = Prod.fst <$> call.perform.run.run store := rfl
  have hnext : ∀ {r : Except StoreError Bytes × σ}, call.perform.run.run store = .ok r →
      Behaviour.mk (fun before => (behaviour store).answer (call :: before)) = behaviour r.2 := by
    intro r hrun
    refine congrArg Behaviour.mk (funext fun before => funext fun next => ?_)
    change (call.perform.run.run store >>= fun r => answerAfter r.2 before next) = _
    rw [hrun]
    rfl
  unfold Tracks Follows
  rw [Behaviour.run_perform, hfirst]
  cases hrun : call.perform.run.run store with
  | error v => rfl
  | ok r =>
    obtain ⟨r, store'⟩ := r
    refine congrArg Except.ok (Prod.ext ?_ (hnext hrun))
    cases r <;> rfl

/-- The calls of one store are carried over to another. -/
structure Carries (t : σ → τ) : Prop where
  read : ∀ store offset len, Tracks t id (BackingStore.read (σ := σ) offset len)
    (BackingStore.read (σ := τ) offset len) store
  write : ∀ store offset src, Tracks t id (BackingStore.write (σ := σ) offset src)
    (BackingStore.write (σ := τ) offset src) store

theorem carries_behaviour : Carries (behaviour (σ := σ)) where
  read := fun store offset len => by
    have hcall : Tracks behaviour id (StoreCall.read offset len).perform
        (Behaviour.perform (.read offset len)) store := follows_perform
    exact hcall
  write := fun store offset src => by
    have hcall : Tracks behaviour id (StoreCall.write offset src).perform
        (Behaviour.perform (.write offset src)) store := follows_perform
    have hact : Tracks behaviour id ((fun _ => ()) <$> (StoreCall.write offset src).perform)
        ((fun _ => ()) <$> Behaviour.perform (.write offset src)) store :=
      follows_map hcall fun _ => rfl
    rw [StoreCall.perform, Functor.map_map] at hact
    exact (id_map' (BackingStore.write (σ := σ) offset src)) ▸ hact

/-! ## Transfers -/

namespace SwapSpace

variable {t : σ → τ} {swap : SwapSpace σ} {owner : SlotOwner} {page : Bytes} {slot len : Nat}

/-- The swap area on another store. -/
def mapStore (t : σ → τ) (swap : SwapSpace σ) : SwapSpace τ where
  pageSize := swap.pageSize
  store := t swap.store
  slots := swap.slots
  reads := swap.reads
  writes := swap.writes

omit [BackingStore σ] [BackingStore τ] in
theorem follows_onStore {α : Type} {act : Action σ StoreError α} {act' : Action τ StoreError α}
    (hact : Tracks t id act act' swap.store) :
    Tracks (mapStore t) id (onStore act) (onStore act') swap :=
  follows_within hact rfl fun _ => rfl

omit [BackingStore σ] [BackingStore τ] in
/-- Slots are freed whatever the store. -/
theorem free_mapStore : (swap.mapStore t).free slot = mapStore t <$> swap.free slot := by
  unfold free
  cases hfree : swap.slots.deallocate slot <;> simp [mapStore, hfree]

theorem follows_transferOut (ht : Carries t) :
    Tracks (mapStore t) id (transferOut slot page) (transferOut slot page) swap := by
  unfold transferOut
  refine follows_get (follows_bind (follows_onStore (ht.write _ _ _)) fun _ s _ => ?_)
  exact follows_change rfl

theorem follows_transferIn (ht : Carries t) :
    Tracks (mapStore t) id (transferIn slot len) (transferIn slot len) swap := by
  unfold transferIn
  refine follows_get (follows_bind (follows_onStore (ht.read _ _ _)) fun bytes s _ => ?_)
  exact follows_modify rfl (follows_pure rfl)

theorem follows_swapOut (ht : Carries t) :
    Tracks (mapStore t) id (swapOut owner page) (swapOut owner page) swap := by
  unfold swapOut
  refine follows_get (follows_require fun _ => ?_)
  refine follows_set rfl (follows_bind (follows_observe (follows_transferOut ht)) fun r s _ => ?_)
  cases r with
  | ok _ => exact follows_pure rfl
  | error e =>
    exact follows_get (follows_lift free_mapStore fun swap' _ => follows_set rfl follows_throw)

theorem follows_swapIn (ht : Carries t) :
    Tracks (mapStore t) id (swapIn slot len) (swapIn slot len) swap := by
  unfold swapIn
  refine follows_get (follows_require fun _ => follows_require fun _ => ?_)
  refine follows_bind (follows_transferIn ht) fun page s _ => ?_
  exact follows_get (follows_lift free_mapStore fun swap' _ => follows_set rfl (follows_pure rfl))

end SwapSpace

end DemandPaging
