/-
  What one computation does, as seen through another.

  `Follows h w m m' s` says that `m'`, started in `h s`, does what `m` does from `s`: it stops
  with the same violation, or ends in the image under `h` of the state that `m` ends in, with
  the image under `w` of its answer.

  * one rule for each way to build a computation; in `follows_bind` the rest has to follow
    only from where the first part can end;
  * `Follows.agree`: two computations that one and the same follows end alike.
-/
import DemandPaging.Proofs.Ends

namespace DemandPaging

variable {ε ε' α α' β β' σ σ' τ τ' : Type}

/-- `m'` does from `h s` what `m` does from `s`. -/
def Follows (h : σ → τ) (w : α → β) (m : StateT σ Checked α) (m' : StateT τ Checked β) (s : σ) :
    Prop :=
  m'.run (h s) = (fun r => (w r.1, h r.2)) <$> m.run s

/-- An action that does what another one does, errors included. -/
abbrev Tracks (h : σ → τ) (w : α → β) (act : Action σ ε α) (act' : Action τ ε β) (s : σ) : Prop :=
  Follows h (Except.map w) act.run act'.run s

/-! ## Steps -/

section Steps

variable {h : σ → τ} {w : α → β} {m : StateT σ Checked α} {m' : StateT τ Checked β} {s s' : σ}

/-- Both sides may be replaced by what does the same. -/
theorem Follows.congr {n : StateT σ Checked α} {n' : StateT τ Checked β} (hm : Follows h w m m' s)
    (hn : n.run s = m.run s) (hn' : n'.run (h s) = m'.run (h s)) : Follows h w n n' s := by
  unfold Follows
  rw [hn, hn']
  exact hm

theorem step_follows_pure {a : α} : Follows h w (pure a) (pure (w a)) s := rfl

theorem step_follows_bind {v : α' → β'} {f : α → StateT σ Checked α'} {f' : β → StateT τ Checked β'}
    (hm : Follows h w m m' s)
    (hf : ∀ a s', m.run s = .ok (a, s') → Follows h v (f a) (f' (w a)) s') :
    Follows h v (m >>= f) (m' >>= f') s := by
  unfold Follows at *
  rw [StateT.run_bind, StateT.run_bind, hm]
  cases hrun : m.run s with
  | error v => rfl
  | ok r => exact hf r.1 r.2 hrun

theorem step_follows_get {f : σ → StateT σ Checked α} {f' : τ → StateT τ Checked β}
    (hf : Follows h w (f s) (f' (h s)) s) : Follows h w (get >>= f) (get >>= f') s := hf

theorem step_follows_lift {c : Checked α} {c' : Checked β} {v : α' → β'}
    {f : α → StateT σ Checked α'} {f' : β → StateT τ Checked β'} (hc : c' = w <$> c)
    (hf : ∀ a, c = .ok a → Follows h v (f a) (f' (w a)) s) :
    Follows h v (liftM c >>= f) (liftM c' >>= f') s := by
  rw [hc]
  cases c with
  | error e => rfl
  | ok a => exact hf a rfl

/-- Two computations followed by one end with the same violation, or in states that look the
    same, with answers that look the same. -/
theorem Follows.agree {h₂ : σ' → τ} {w₂ : α' → β} {m₂ : StateT σ' Checked α'} {s₂ : σ'}
    (hm : Follows h w m m' s) (hm₂ : Follows h₂ w₂ m₂ m' s₂) (hs : h s = h₂ s₂) :
    (fun r => (w r.1, h r.2)) <$> m.run s = (fun r => (w₂ r.1, h₂ r.2)) <$> m₂.run s₂ := by
  unfold Follows at *
  rw [← hm, ← hm₂, hs]

/-- What `m'` ends with is what shows of an end of `m`. -/
theorem Follows.exists_of_eq_ok {b : β} {t : τ} (hm : Follows h w m m' s)
    (hrun : m'.run (h s) = .ok (b, t)) : ∃ a s', m.run s = .ok (a, s') ∧ w a = b ∧ h s' = t := by
  unfold Follows at hm
  rw [hm] at hrun
  cases hown : m.run s with
  | error v =>
    rw [hown] at hrun
    cases hrun
  | ok r =>
    rw [hown] at hrun
    cases hrun
    exact ⟨r.1, r.2, rfl, rfl, rfl⟩

end Steps

/-! ## Actions -/

section Actions

variable {h : σ → τ} {w : α → β} {v : α' → β'} {act : Action σ ε α} {act' : Action τ ε β} {s s₁ : σ}

theorem follows_pure {a : α} {b : β} (hb : b = w a) :
    Tracks (ε := ε) h w (pure a) (pure b) s := by
  rw [hb]
  rfl

theorem follows_throw {e : ε} :
    Tracks h w (throw e : Action σ ε α) (throw e : Action τ ε β) s := rfl

/-- An action does what it does. -/
theorem follows_self : Tracks id id act act s := by
  unfold Tracks Follows
  have hid : (fun r : Except ε α × σ => (r.1.map id, id r.2)) = id := by
    funext r
    obtain ⟨r | r, s'⟩ := r <;> rfl
  rw [hid, id_map]
  rfl

/-- Two actions that are sure to return, with the same answer and in the same state. -/
theorem follows_of_ends {a : α} {s' : τ} (hact : Ends (fun _ => False) act.run s fun r s' =>
      r = .ok a ∧ s' = s₁) (hact' : act'.run.run (h s) = .ok (.ok (w a), s')) (hs : h s₁ = s') :
    Tracks h w act act' s := by
  obtain ⟨_, _, hrun, rfl, rfl⟩ := ends_iff_eq_ok.1 hact
  unfold Tracks Follows
  rw [hact', hrun, ← hs]
  rfl

theorem follows_of_run {r : Except ε α} (hrun : act.run.run s = .ok (r, s₁))
    (hact' : Ends (fun _ => False) act'.run (h s) fun r' s' => r' = r.map w ∧ s' = h s₁) :
    Tracks h w act act' s := by
  obtain ⟨_, _, hrun', rfl, rfl⟩ := ends_iff_eq_ok.1 hact'
  unfold Tracks Follows
  rw [hrun', hrun]
  rfl

/-- What comes next has to follow from where the first action ends with an answer. -/
theorem follows_bind {f : α → Action σ ε α'} {f' : β → Action τ ε β'} (hact : Tracks h w act act' s)
    (hf : ∀ a s', act.run.run s = .ok (.ok a, s') → Tracks h v (f a) (f' (w a)) s') :
    Tracks h v (act >>= f) (act' >>= f') s := by
  refine step_follows_bind hact fun r s' hrun => ?_
  cases r with
  | error e => rfl
  | ok a => exact hf a s' hrun

/-- What is known of the first action helps the rest to follow. -/
theorem follows_bind_ends {P : Except ε α → σ → Prop} {f : α → Action σ ε α'}
    {f' : β → Action τ ε β'} (hact : Tracks h w act act' s) (hends : Ends (fun _ => True) act.run s P)
    (hf : ∀ a s', P (.ok a) s' → Tracks h v (f a) (f' (w a)) s') :
    Tracks h v (act >>= f) (act' >>= f') s :=
  follows_bind hact fun a s' hrun => hf a s' (hends.of_run hrun)

theorem follows_map {f : α → α'} {f' : β → β'} (hact : Tracks h w act act' s)
    (hf : ∀ a, v (f a) = f' (w a)) : Tracks h v (f <$> act) (f' <$> act') s := by
  rw [← bind_pure_comp, ← bind_pure_comp]
  exact follows_bind hact fun a s' _ => follows_pure (hf a).symm

/-- Of the answer the other side may keep only a part. -/
theorem Tracks.map (hact : Tracks h w act act' s) (g : β → β') :
    Tracks h (fun a => g (w a)) act (g <$> act') s := by
  have hmap : Tracks h (fun a => g (w a)) (id <$> act) (g <$> act') s :=
    follows_map hact fun _ => rfl
  rwa [id_map] at hmap

theorem follows_get {f : σ → Action σ ε α} {f' : τ → Action τ ε β}
    (hf : Tracks h w (f s) (f' (h s)) s) : Tracks h w (get >>= f) (get >>= f') s := hf

theorem follows_get_left {f : σ → Action σ ε α} (hf : Tracks h w (f s) act' s) :
    Tracks h w (get >>= f) act' s := hf

theorem follows_get_right {f' : τ → Action τ ε β} (hf : Tracks h w act (f' (h s)) s) :
    Tracks h w act (get >>= f') s := hf

theorem follows_set {t : τ} {f : PUnit → Action σ ε α} {f' : PUnit → Action τ ε β} (ht : t = h s₁)
    (hf : Tracks h w (f ⟨⟩) (f' ⟨⟩) s₁) : Tracks h w (set s₁ >>= f) (set t >>= f') s := by
  rw [ht]
  exact hf

theorem follows_modify {c : σ → σ} {c' : τ → τ} {f : PUnit → Action σ ε α}
    {f' : PUnit → Action τ ε β} (hc : c' (h s) = h (c s)) (hf : Tracks h w (f ⟨⟩) (f' ⟨⟩) (c s)) :
    Tracks h w (modify c >>= f) (modify c' >>= f') s :=
  follows_set (s := s) hc hf

/-- A change that the other side does not show. -/
theorem follows_modify_left {c : σ → σ} {f : PUnit → Action σ ε α} (hc : h s = h (c s))
    (hf : Tracks h w (f ⟨⟩) act' (c s)) : Tracks h w (modify c >>= f) act' s := by
  unfold Tracks Follows at *
  rw [hc]
  exact hf

theorem follows_put {t : τ} (ht : t = h s₁) :
    Tracks (ε := ε) h id (set s₁) (set t) s :=
  congrArg (fun t => Except.ok (Except.ok PUnit.unit, t)) ht

theorem follows_change {c : σ → σ} {c' : τ → τ} (hc : c' (h s) = h (c s)) :
    Tracks (ε := ε) h id (modify c) (modify c') s :=
  congrArg (fun t => Except.ok (Except.ok PUnit.unit, t)) hc

theorem follows_lift {c : Checked α} {c' : Checked β} {f : α → Action σ ε α'}
    {f' : β → Action τ ε β'} (hc : c' = w <$> c)
    (hf : ∀ a, c = .ok a → Tracks h v (f a) (f' (w a)) s) :
    Tracks h v (liftM c >>= f) (liftM c' >>= f') s := by
  rw [hc]
  cases c with
  | error e => rfl
  | ok a => exact hf a rfl

theorem follows_ofExcept {wrap : ε' → ε} {r : Except ε' α} {r' : Except ε' β}
    (hr : r' = r.map w) :
    Tracks h w (Action.ofExcept wrap r) (Action.ofExcept wrap r') s := by
  rw [hr]
  cases r <;> rfl

theorem follows_ofExcept_bind {wrap : ε' → ε} {r : Except ε' α} {r' : Except ε' β}
    {f : α → Action σ ε α'} {f' : β → Action τ ε β'} (hr : r' = r.map w)
    (hf : ∀ a, r = .ok a → Tracks h v (f a) (f' (w a)) s) :
    Tracks h v (Action.ofExcept wrap r >>= f) (Action.ofExcept wrap r' >>= f') s := by
  rw [hr]
  cases r with
  | error e => rfl
  | ok a => exact hf a rfl

theorem follows_require {rule : Bool} {violation : Violation} {f : Unit → Action σ ε α}
    {f' : Unit → Action τ ε β} (hf : rule = true → Tracks h w (f ()) (f' ()) s) :
    Tracks h w (liftM (Checked.require rule violation) >>= f)
      (liftM (Checked.require rule violation) >>= f') s := by
  cases rule with
  | false => rfl
  | true => exact hf rfl

theorem follows_ofAttempt {wrap : ε' → ε} {attempt : Attempt ε' α} :
    Tracks h id (Action.ofAttempt wrap attempt) (Action.ofAttempt wrap attempt) s := by
  refine follows_lift (w := id) (by rw [id_map]) fun r _ => follows_ofExcept ?_
  cases r <;> rfl

theorem follows_ofAttempt_bind {wrap : ε' → ε} {attempt : Attempt ε' α} {f : α → Action σ ε α'}
    {f' : α → Action τ ε β'}
    (hf : ∀ a, attempt.run = .ok (.ok a) → Tracks h v (f a) (f' a) s) :
    Tracks h v (Action.ofAttempt wrap attempt >>= f) (Action.ofAttempt wrap attempt >>= f') s := by
  unfold Action.ofAttempt
  rw [bind_assoc, bind_assoc]
  refine follows_lift (w := id) (by rw [id_map]) fun r hr => ?_
  exact follows_ofExcept_bind (w := id) (by cases r <;> rfl) fun a ha => hf a (ha ▸ hr)

theorem follows_exceptT_lift {m : StateT σ Checked α} {m' : StateT τ Checked β}
    (hm : Follows h w m m' s) :
    Tracks (ε := ε) h w (ExceptT.lift m) (ExceptT.lift m') s := by
  unfold Tracks Follows at *
  rw [ExceptT.run_lift, ExceptT.run_lift, StateT.run_map, StateT.run_map, hm]
  cases m.run s <;> rfl

theorem follows_observe (hact : Tracks h w act act' s) :
    Tracks h (Except.map w) (Action.observe act) (Action.observe act') s :=
  follows_exceptT_lift hact

theorem follows_within {g : σ' → τ'} {act : Action σ' ε' α} {act' : Action τ' ε' β} {part : σ → σ'}
    {part' : τ → τ'} {put : σ' → σ → σ} {put' : τ' → τ → τ} {wrap : ε' → ε}
    (hact : Tracks g w act act' (part s)) (hpart : part' (h s) = g (part s))
    (hput : ∀ x, put' (g x) (h s) = h (put x s)) :
    Tracks h w (Action.within part put wrap act) (Action.within part' put' wrap act') s := by
  refine follows_get ?_
  refine follows_lift (w := fun r => (r.1.map w, g r.2)) ?_ fun r _ => ?_
  · rw [hpart]
    exact hact
  · exact follows_set (hput r.2) (follows_ofExcept rfl)

/-- The other side may be a part of this one. -/
theorem follows_within_left {act : Action σ' ε α} {part : σ → σ'} {put : σ' → σ → σ} {g : σ' → τ}
    (hact : Tracks g w act act' (part s)) (hpart : h s = g (part s))
    (hput : ∀ x, h (put x s) = g x) : Tracks h w (Action.within part put id act) act' s := by
  refine follows_get_left ?_
  unfold Tracks Follows at *
  rw [hpart, hact]
  generalize act.run.run (part s) = c
  cases c with
  | error v => rfl
  | ok r =>
    obtain ⟨e | a, x⟩ := r
    · exact congrArg (fun y => Except.ok (Except.error e, y)) (hput x).symm
    · exact congrArg (fun y => Except.ok (Except.ok (w a), y)) (hput x).symm

/-- This side may be a part of the other one. -/
theorem follows_within_right {act' : Action τ' ε β} {g : σ → τ'} {part : τ → τ'} {put : τ' → τ → τ}
    (hact : Tracks g w act act' s) (hpart : part (h s) = g s) (hput : ∀ x, put (g x) (h s) = h x) :
    Tracks h w act (Action.within part put id act') s := by
  refine follows_get_right ?_
  unfold Tracks Follows at *
  rw [hpart, hact]
  generalize act.run.run s = c
  rcases c with v | ⟨e | a, x⟩
  · rfl
  · exact congrArg (fun y => Except.ok (Except.error e, y)) (hput x)
  · exact congrArg (fun y => Except.ok (Except.ok (w a), y)) (hput x)

theorem follows_ite {p : Prop} [Decidable p] {act₁ : Action σ ε α} {act₁' : Action τ ε β}
    (hact : p → Tracks h w act act' s) (hact₁ : ¬ p → Tracks h w act₁ act₁' s) :
    Tracks h w (if p then act else act₁) (if p then act' else act₁') s := by
  by_cases hp : p
  · rw [if_pos hp, if_pos hp]
    exact hact hp
  · rw [if_neg hp, if_neg hp]
    exact hact₁ hp

end Actions

end DemandPaging
