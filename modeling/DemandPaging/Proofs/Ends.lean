/-
  What a computation is sure to end with.

  `Ends V m s Q` says that `m`, started in the state `s`, ends with an answer and a
  state that satisfy `Q`, or with a violation in `V`.  With every violation in `V`
  this is what holds whenever `m` returns; with none it also says that `m` returns.

  * one rule for each way to build a computation, up to `ends_bind`;
  * `Ends.imp` to weaken `Q`, `ends_iff_eq_ok` to read off a run.
-/
import DemandPaging.Outcome

namespace DemandPaging

variable {ε ε' α β σ τ : Type} {V : Violation → Prop}

/-! ## Values and violations -/

/-- The computation ends with a value in `Q`, or with a violation in `V`. -/
def Checked.Ends (V : Violation → Prop) (c : Checked α) (Q : α → Prop) : Prop :=
  match c with
  | .ok a => Q a
  | .error v => V v

namespace Checked

variable {c : Checked α} {Q R : α → Prop}

@[simp] theorem ends_ok {a : α} : Checked.Ends V (.ok a) Q ↔ Q a := Iff.rfl

@[simp] theorem ends_pure {a : α} : Checked.Ends V (pure a) Q ↔ Q a := Iff.rfl

@[simp] theorem ends_error {v : Violation} : Checked.Ends V (.error v : Checked α) Q ↔ V v := Iff.rfl

@[simp] theorem ends_stop {v : Violation} : Checked.Ends V (v.stop : Checked α) Q ↔ V v := Iff.rfl

@[simp] theorem ends_bind {f : α → Checked β} {Q : β → Prop} :
    Checked.Ends V (c >>= f) Q ↔ Checked.Ends V c fun a => Checked.Ends V (f a) Q := by
  cases c <;> rfl

@[simp] theorem ends_map {f : α → β} {Q : β → Prop} :
    Checked.Ends V (f <$> c) Q ↔ Checked.Ends V c fun a => Q (f a) := by
  cases c <;> rfl

@[simp] theorem ends_require {rule : Bool} {v : Violation} {Q : Unit → Prop} :
    Checked.Ends V (Checked.require rule v) Q ↔ (rule = true → Q ()) ∧ (rule = false → V v) := by
  cases rule <;> simp [Checked.require]

theorem ends_addBelow {limit a b : Nat} {Q : Nat → Prop} :
    Checked.Ends V (addBelow limit a b) Q ↔
      (a + b < limit → Q (a + b)) ∧ (¬ a + b < limit → V .overflow) := by
  unfold addBelow
  by_cases h : a + b < limit <;> simp [h]

theorem ends_mulBelow {limit a b : Nat} {Q : Nat → Prop} :
    Checked.Ends V (mulBelow limit a b) Q ↔
      (a * b < limit → Q (a * b)) ∧ (¬ a * b < limit → V .overflow) := by
  unfold mulBelow
  by_cases h : a * b < limit <;> simp [h]

theorem ends_reserve {count size : Nat} {Q : Unit → Prop} :
    Checked.Ends V (Checked.reserve count size) Q ↔
      (count * size < limit63 → Q ()) ∧ (¬ count * size < limit63 → V .tooLarge) := by
  simp [Checked.reserve]

theorem ends_ite {p : Prop} [Decidable p] {c d : Checked α} :
    Checked.Ends V (if p then c else d) Q ↔
      (p → Checked.Ends V c Q) ∧ (¬ p → Checked.Ends V d Q) := by
  by_cases h : p <;> simp [h]

theorem Ends.imp (h : Checked.Ends V c Q) (hQ : ∀ a, Q a → R a) : Checked.Ends V c R := by
  cases c with
  | ok a => exact hQ a h
  | error v => exact h

theorem Ends.and (h : Checked.Ends V c Q) (h' : Checked.Ends V c R) :
    Checked.Ends V c fun a => Q a ∧ R a := by
  cases c with
  | ok a => exact ⟨h, h'⟩
  | error v => exact h

/-- With fewer violations to expect, more is said. -/
theorem Ends.allow {V' : Violation → Prop} (h : Checked.Ends V c Q) (hV : ∀ v, V v → V' v) :
    Checked.Ends V' c Q := by
  cases c with
  | ok a => exact h
  | error v => exact hV v h

/-- A computation whose violations are all in `V` ends with some value. -/
theorem ends_true (h : ∀ v, c = .error v → V v) : Checked.Ends V c fun _ => True := by
  cases c with
  | ok a => trivial
  | error v => exact h v rfl

/-- What every value satisfies holds of whatever a computation returns. -/
theorem ends_of_forall (h : ∀ a, Q a) : Checked.Ends (fun _ => True) c Q := by
  cases c with
  | ok a => exact h a
  | error v => trivial

/-- What a run shows when it returns. -/
theorem exists_of_toOption_bind {f : α → Checked β} {b : β} (h : (c >>= f).toOption = some b) :
    ∃ a, c = .ok a ∧ (f a).toOption = some b := by
  cases c with
  | ok a => exact ⟨a, rfl, h⟩
  | error v => cases h

/-- What is returned comes from what the first part returned. -/
theorem eq_ok_of_bind {f : α → Checked β} {b : β} (h : c >>= f = .ok b) :
    ∃ a, c = .ok a ∧ f a = .ok b := by
  cases c with
  | ok a => exact ⟨a, rfl, h⟩
  | error v => cases h

theorem ends_of_eq_ok {a : α} (h : c = .ok a) : Checked.Ends V c Q ↔ Q a := by rw [h]; rfl

end Checked

/-! ## Steps on a state -/

/-- The step, taken in the state `s`, ends with an answer and a state in `Q`, or with a
    violation in `V`. -/
def Ends (V : Violation → Prop) (m : StateT σ Checked α) (s : σ) (Q : α → σ → Prop) : Prop :=
  Checked.Ends V (m.run s) fun r => Q r.1 r.2

section Steps

variable {m : StateT σ Checked α} {s : σ} {Q R : α → σ → Prop}

theorem Ends.imp (h : Ends V m s Q) (hQ : ∀ a s', Q a s' → R a s') : Ends V m s R :=
  Checked.Ends.imp h fun r hr => hQ r.1 r.2 hr

theorem Ends.and (h : Ends V m s Q) (h' : Ends V m s R) : Ends V m s fun a s' => Q a s' ∧ R a s' :=
  Checked.Ends.and h h'

theorem Ends.allow {V' : Violation → Prop} (h : Ends V m s Q) (hV : ∀ v, V v → V' v) :
    Ends V' m s Q :=
  Checked.Ends.allow h hV

/-- What is sure to end with `Q` does so whenever it returns. -/
theorem Ends.whenever (h : Ends V m s Q) : Ends (fun _ => True) m s Q :=
  h.allow fun _ _ => trivial

theorem ends_iff_eq_ok : Ends (fun _ => False) m s Q ↔ ∃ a s', m.run s = .ok (a, s') ∧ Q a s' := by
  unfold Ends
  cases h : m.run s with
  | ok r => exact ⟨fun hQ => ⟨r.1, r.2, rfl, hQ⟩, fun ⟨_, _, heq, hQ⟩ => by cases heq; exact hQ⟩
  | error v => exact ⟨False.elim, by simp⟩

/-- With every violation in `V`, what holds whenever the step returns. -/
theorem Ends.of_run {a : α} {s' : σ} (h : Ends V m s Q) (hrun : m.run s = .ok (a, s')) : Q a s' := by
  unfold Ends at h
  rw [hrun] at h
  exact h

theorem ends_of_run {a : α} {s' : σ} (hrun : m.run s = .ok (a, s')) : Ends V m s Q ↔ Q a s' := by
  unfold Ends
  rw [hrun]
  rfl

/-- A step that returns ends where its run ends. -/
theorem ends_self : Ends (fun _ => True) m s fun a s' => m.run s = .ok (a, s') := by
  unfold Ends
  cases m.run s with
  | ok r => exact rfl
  | error v => trivial

/-- What a step ends with is what its run ends with. -/
theorem Ends.with_run (h : Ends V m s Q) : Ends V m s fun a s' => Q a s' ∧ m.run s = .ok (a, s') := by
  unfold Ends at *
  cases hm : m.run s with
  | ok r => rw [hm] at h; exact ⟨h, rfl⟩
  | error v => rw [hm] at h; exact h

/-- What holds whenever the step returns holds when it returns or stops as allowed. -/
theorem Ends.of_returns (h : Ends V m s fun _ _ => True) (hQ : Ends (fun _ => True) m s Q) :
    Ends V m s Q := by
  unfold Ends at *
  cases hm : m.run s with
  | ok r => rw [hm] at hQ; exact hQ
  | error v => rw [hm] at h; exact h

/-- A step of which nothing but a value decides what it ends with ends as this value does. -/
theorem run_eq_map_of_ends {c : Checked β} {f : β → α × σ}
    (h : ∀ V Q, Ends V m s Q ↔ Checked.Ends V c fun b => Q (f b).1 (f b).2) :
    m.run s = f <$> c := by
  cases c with
  | ok b =>
    obtain ⟨_, _, hrun, hb⟩ := ends_iff_eq_ok.1 ((h (fun _ => False) fun a s' => (a, s') = f b).2 rfl)
    exact hrun.trans (congrArg Except.ok hb)
  | error v =>
    have hstop : Ends (· = v) m s fun _ _ => False := (h _ _).2 rfl
    unfold Ends at hstop
    cases hrun : m.run s with
    | ok r =>
      rw [hrun] at hstop
      cases hstop
    | error v' =>
      rw [hrun, Checked.ends_error] at hstop
      exact congrArg _ hstop

theorem step_ends_bind {f : α → StateT σ Checked β} {Q : β → σ → Prop} :
    Ends V (m >>= f) s Q ↔ Ends V m s fun a s' => Ends V (f a) s' Q := by
  unfold Ends
  rw [StateT.run_bind, Checked.ends_bind]

theorem step_ends_lift {c : Checked α} :
    Ends V (liftM c : StateT σ Checked α) s Q ↔ Checked.Ends V c fun a => Q a s := by
  cases c <;> rfl

theorem step_ends_get {Q : σ → σ → Prop} : Ends V (get : StateT σ Checked σ) s Q ↔ Q s s := Iff.rfl

end Steps

theorem toOption_eq_some {r : Except ε α} {a : α} : r.toOption = some a ↔ r = .ok a := by
  cases r <;> simp [Except.toOption]

/-- The error that a result is, if it is one. -/
def failure? : Except ε α → Option ε
  | .ok _ => none
  | .error e => some e

theorem failure?_eq_some {r : Except ε α} {e : ε} : failure? r = some e ↔ r = .error e := by
  cases r <;> simp [failure?]

@[simp] theorem mapError_ok {f : ε → ε'} {a : α} :
    (Except.ok a : Except ε α).mapError f = .ok a := rfl

@[simp] theorem mapError_error {f : ε → ε'} {e : ε} :
    (Except.error e : Except ε α).mapError f = .error (f e) := rfl

/-! ## Actions -/

section Actions

variable {act : Action σ ε α} {s : σ} {Q : Except ε α → σ → Prop}

@[simp] theorem ends_pure {a : α} : Ends V (pure a : Action σ ε α).run s Q ↔ Q (.ok a) s := Iff.rfl

@[simp] theorem ends_throw {e : ε} : Ends V (throw e : Action σ ε α).run s Q ↔ Q (.error e) s :=
  Iff.rfl

/-- What follows an action starts where it ends, unless it ends with an error. -/
@[simp] theorem ends_bind {f : α → Action σ ε β} {Q : Except ε β → σ → Prop} :
    Ends V (act >>= f).run s Q ↔ Ends V act.run s fun r s' =>
      match r with
      | .ok a => Ends V (f a).run s' Q
      | .error e => Q (.error e) s' := by
  unfold Ends
  rw [ExceptT.run_bind, StateT.run_bind, Checked.ends_bind]
  refine ⟨fun h => h.imp ?_, fun h => h.imp ?_⟩
  all_goals rintro ⟨_ | a, s'⟩ hr <;> exact hr

@[simp] theorem ends_map {f : α → β} {Q : Except ε β → σ → Prop} :
    Ends V (f <$> act).run s Q ↔ Ends V act.run s fun r s' => Q (r.map f) s' := by
  rw [← bind_pure_comp, ends_bind]
  refine ⟨fun h => h.imp ?_, fun h => h.imp ?_⟩
  all_goals rintro (_ | a) s' hr <;> exact hr

@[simp] theorem ends_get {Q : Except ε σ → σ → Prop} :
    Ends V (get : Action σ ε σ).run s Q ↔ Q (.ok s) s := Iff.rfl

@[simp] theorem ends_set {s' : σ} {Q : Except ε PUnit → σ → Prop} :
    Ends V (set s' : Action σ ε PUnit).run s Q ↔ Q (.ok ⟨⟩) s' := Iff.rfl

@[simp] theorem ends_modify {f : σ → σ} {Q : Except ε PUnit → σ → Prop} :
    Ends V (modify f : Action σ ε PUnit).run s Q ↔ Q (.ok ⟨⟩) (f s) := Iff.rfl

@[simp] theorem ends_lift {c : Checked α} :
    Ends V (liftM c : Action σ ε α).run s Q ↔ Checked.Ends V c fun a => Q (.ok a) s := by
  cases c <;> rfl

@[simp] theorem ends_exceptT_lift {m : StateT σ Checked α} :
    Ends V (ExceptT.lift m : Action σ ε α).run s Q ↔ Ends V m s fun a s' => Q (.ok a) s' := by
  unfold Ends
  rw [ExceptT.run_lift, StateT.run_map, Checked.ends_map]

@[simp] theorem ends_observe {Q : Except ε (Except ε α) → σ → Prop} :
    Ends V (Action.observe act).run s Q ↔ Ends V act.run s fun r s' => Q (.ok r) s' :=
  ends_exceptT_lift

@[simp] theorem ends_ofExcept {wrap : ε' → ε} {r : Except ε' α} :
    Ends V (Action.ofExcept wrap r : Action σ ε α).run s Q ↔ Q (r.mapError wrap) s := by
  cases r <;> rfl

@[simp] theorem ends_ofAttempt {wrap : ε' → ε} {attempt : Attempt ε' α} :
    Ends V (Action.ofAttempt wrap attempt : Action σ ε α).run s Q ↔
      Checked.Ends V attempt.run fun r => Q (r.mapError wrap) s := by
  unfold Action.ofAttempt
  rw [ends_bind, ends_lift]
  simp only [ends_ofExcept]

@[simp] theorem ends_within {part : τ → σ} {put : σ → τ → τ} {wrap : ε → ε'} {whole : τ}
    {Q : Except ε' α → τ → Prop} :
    Ends V (Action.within part put wrap act).run whole Q ↔
      Ends V act.run (part whole) fun r new => Q (r.mapError wrap) (put new whole) := by
  unfold Action.within
  simp only [ends_bind, ends_get, ends_lift, ends_set, ends_ofExcept]
  rfl

theorem ends_ite {p : Prop} [Decidable p] {act act' : Action σ ε α} :
    Ends V (if p then act else act').run s Q ↔
      (p → Ends V act.run s Q) ∧ (¬ p → Ends V act'.run s Q) := by
  by_cases h : p <;> simp [h]

/-! ### Runs of actions -/

section Runs

variable {f : α → Action σ ε β} {s' : σ}

theorem run_bind_of_ok {a : α} (h : act.run.run s = .ok (.ok a, s')) :
    (act >>= f).run.run s = (f a).run.run s' := by
  rw [ExceptT.run_bind, StateT.run_bind, h]
  rfl

theorem run_bind_of_error {e : ε} (h : act.run.run s = .ok (.error e, s')) :
    (act >>= f).run.run s = .ok (.error e, s') := by
  rw [ExceptT.run_bind, StateT.run_bind, h]
  rfl

/-- What follows an action does not see more of the start than the action leaves of it. -/
theorem run_bind_congr (h : act.run.run s = act.run.run s') :
    (act >>= f).run.run s = (act >>= f).run.run s' := by
  rw [ExceptT.run_bind, StateT.run_bind, StateT.run_bind, h]

/-- Actions that do the same may stand for each other. -/
theorem run_bind_of_eq {act' : Action σ ε α} (h : act.run.run s = act'.run.run s) :
    (act >>= f).run.run s = (act' >>= f).run.run s := by
  rw [ExceptT.run_bind, StateT.run_bind, ExceptT.run_bind, StateT.run_bind, h]

theorem run_bind_of_stop {v : Violation} (h : act.run.run s = .error v) :
    (act >>= f).run.run s = .error v := by
  rw [ExceptT.run_bind, StateT.run_bind, h]
  rfl

/-- An attempt does not touch the state. -/
theorem run_ofAttempt {wrap : ε' → ε} {attempt : Attempt ε' α} :
    (Action.ofAttempt wrap attempt : Action σ ε α).run.run s =
      attempt.run >>= fun r => .ok (r.mapError wrap, s) := by
  unfold Action.ofAttempt
  rcases attempt with v | e | a <;> rfl

end Runs

end Actions

/-! ## Attempts -/

section Attempts

variable {attempt : Attempt ε α} {Q : Except ε α → Prop}

@[simp] theorem attempt_ends_pure {a : α} :
    Checked.Ends V (pure a : Attempt ε α).run Q ↔ Q (.ok a) := Iff.rfl

@[simp] theorem attempt_ends_throw {e : ε} :
    Checked.Ends V (throw e : Attempt ε α).run Q ↔ Q (.error e) := Iff.rfl

@[simp] theorem attempt_ends_bind {f : α → Attempt ε β} {Q : Except ε β → Prop} :
    Checked.Ends V (attempt >>= f).run Q ↔ Checked.Ends V attempt.run fun r =>
      match r with
      | .ok a => Checked.Ends V (f a).run Q
      | .error e => Q (.error e) := by
  rw [ExceptT.run_bind, Checked.ends_bind]
  refine ⟨fun h => h.imp ?_, fun h => h.imp ?_⟩
  all_goals rintro (_ | a) hr <;> exact hr

@[simp] theorem attempt_ends_lift {c : Checked α} :
    Checked.Ends V (liftM c : Attempt ε α).run Q ↔ Checked.Ends V c fun a => Q (.ok a) := by
  cases c <;> rfl

theorem attempt_run_bind_of_ok {f : α → Attempt ε β} {a : α} (h : attempt.run = .ok (.ok a)) :
    (attempt >>= f).run = (f a).run := by
  rw [ExceptT.run_bind, h]
  rfl

theorem attempt_run_bind_of_error {f : α → Attempt ε β} {e : ε} (h : attempt.run = .ok (.error e)) :
    (attempt >>= f).run = .ok (.error e) := by
  rw [ExceptT.run_bind, h]
  rfl

end Attempts

end DemandPaging
