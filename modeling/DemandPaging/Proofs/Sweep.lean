/-
  The sweep for a victim keeps frames and pages in agreement.

  The sweep turns `used` bits off in the frame table, and the entries of the spared pages
  follow when it is over.  The proof takes both at each step of the hand, so that frames
  and pages agree all the way: `spare` is one such step.
-/
import DemandPaging.Proofs.Circle
import DemandPaging.Proofs.Reconcile

namespace DemandPaging

/-- The entry with its `used` bit off. -/
def PageEntry.cold (e : PageEntry) : PageEntry := { e with used := false }

/-! ## The hand -/

/-- What one step of the hand may do: it passes a frame that it may not take, it spares a frame, the
    bit of which goes off, or it stops at a frame. -/
inductive Sweep.Stepped (n : Nat) (table : FrameTable) (hand : Nat) (i : FrameInfo)
    (sweep : Sweep) : Prop where
  | passed (hkept : i.isOwned = false ∨ i.isPinned = true)
    (hrest : steps n table ((hand + 1) % table.size) = .ok sweep)
  | spared {rest : Sweep} (hused : i.mapping.used = true) (hvictim : sweep.victim = rest.victim)
    (hrest : steps n
      (table.put (frameAt hand) { i with mapping := { i.mapping with used := false } })
      ((hand + 1) % table.size) = .ok rest)
  | stopped {pid : Pid} (hpin : i.isPinned = false) (hcold : i.mapping.used = false)
    (hvictim : sweep.victim = some (frameAt hand, pid))

theorem Sweep.stepped {n hand : Nat} {table : FrameTable} {sweep : Sweep}
    (h : steps (n + 1) table hand = .ok sweep) :
    ∃ i, table.info? (frameAt hand) = some i ∧ Stepped n table hand i sweep := by
  unfold steps at h
  cases hi : table.lookup (frameAt hand) with
  | error e =>
    rw [hi] at h
    cases h
  | ok i =>
    rw [hi] at h
    rw [FrameTable.lookup_eq_ok_iff] at hi
    refine ⟨i, hi, ?_⟩
    simp only [bind, Except.bind, FrameTable.clearUsed_eq hi] at h
    split at h
    · next hnone => exact .passed (.inl (by rw [FrameInfo.isOwned, hnone]; rfl)) h
    · split at h
      · next hpin => exact .passed (.inr hpin) h
      · next hpin =>
        split at h
        · next hused =>
          split at h
          · cases h
          · next rest hrest =>
            cases h
            exact @Stepped.spared _ _ _ _ _ rest hused rfl hrest
        · next hcold =>
          cases h
          exact .stopped (Bool.not_eq_true _ ▸ hpin) (Bool.not_eq_true _ ▸ hcold) rfl

namespace Residency

variable {pins : Frame → Nat} {r r' : Residency} {pid q : Pid} {v w : Vpn} {e : PageEntry}
  {f : Frame} {hand n m : Nat} {table : FrameTable}

/-- A sweep leaves everything about the pages but the `used` bits of resident ones. -/
structure Cools (r r' : Residency) : Prop where
  outline : ∀ pid, r'.outline? pid = r.outline? pid
  page : ∀ pid v, (r'.page? pid v).map PageEntry.cold = (r.page? pid v).map PageEntry.cold
  elsewhere : ∀ {pid v e}, r.page? pid v = some e → (∀ f, e.state ≠ .resident f) →
    r'.page? pid v = some e
  nextPid : r'.nextPid = r.nextPid

theorem Cools.refl : r.Cools r := ⟨fun _ => rfl, fun _ _ => rfl, fun he _ => he, rfl⟩

theorem Cools.trans {r'' : Residency} (h : r.Cools r') (h' : r'.Cools r'') : r.Cools r'' :=
  ⟨fun pid => (h'.outline pid).trans (h.outline pid),
    fun pid v => (h'.page pid v).trans (h.page pid v),
    fun he hs => h'.elsewhere (h.elsewhere he hs) hs, h'.nextPid.trans h.nextPid⟩

/-- The frame table and the hand of the clock say nothing about pages. -/
theorem Cools.frames (h : r.Cools r') : r.Cools { r' with frames := table, hand := n } := by
  have hp : ∀ q, ({ r' with frames := table, hand := n } : Residency).process? q = r'.process? q :=
    fun q => by cases q <;> rfl
  refine ⟨fun q => ?_, fun q w => ?_, fun he hs => (page?_congr (hp _)).trans (h.elsewhere he hs),
    h.nextPid⟩
  · rw [outline?, hp]
    exact h.outline q
  · rw [page?_congr (hp q)]
    exact h.page q w

/-- A sweep moves no page. -/
theorem Cools.states (h : r.Cools r') :
    (r'.page? pid v).map (·.state) = (r.page? pid v).map (·.state) := by
  have hcold := congrArg (Option.map PageEntry.state) (h.page pid v)
  simp only [Option.map_map] at hcold
  exact hcold

theorem Cools.page?_some (h : r.Cools r') (he : r.page? pid v = some e) :
    ∃ e', r'.page? pid v = some e' ∧ e'.cold = e.cold := by
  have hpage := h.page pid v
  rw [he, Option.map_some] at hpage
  exact Option.map_eq_some_iff.1 hpage

theorem Cools.page?_of_some {e' : PageEntry} (h : r.Cools r') (he' : r'.page? pid v = some e') :
    ∃ e, r.page? pid v = some e ∧ e'.cold = e.cold := by
  have hpage := h.page pid v
  rw [he', Option.map_some] at hpage
  obtain ⟨e, he, hcold⟩ := Option.map_eq_some_iff.1 hpage.symm
  exact ⟨e, he, hcold.symm⟩

/-- The page in a frame with its `used` bit turned off on both sides. -/
theorem Coherent.spare (h : r.Coherent pins none) (he : r.page? pid v = some e)
    (hs : e.state = .resident f) :
    (r.link pid v e.cold f (.holding pid e.cold (pins f))).Coherent pins none ∧
      r.Cools (r.link pid v e.cold f (.holding pid e.cold (pins f))) := by
  have hclean : e.readOnly = true → e.dirty = false := h.clean he
  refine ⟨h.rebit he hs hs rfl rfl hclean, fun q => outline?_link he rfl, ?_, ?_, nextPid_link⟩
  · intro q w
    rw [page?_link he]
    split
    · next hqw => rw [hqw.1, hqw.2, he]; rfl
    · rfl
  · intro q w e₁ he₁ hs₁
    rw [page?_link he, if_neg, he₁]
    rintro ⟨rfl, rfl⟩
    cases he.symm.trans he₁
    exact hs₁ f hs

/-- What a sweep spares is not seen by the frame side. -/
theorem clearSpared_frames {spared : Spared} :
    clearSpared { r with frames := table, hand := n } spared =
      { clearSpared r spared with frames := table, hand := n } := by
  have htable : ({ r with frames := table, hand := n } : Residency).table? spared.owner =
      r.table? spared.owner := by
    unfold table?
    cases spared.owner <;> rfl
  unfold clearSpared
  rw [htable]
  cases r.table? spared.owner with
  | none => rfl
  | some t =>
    unfold setTable updateProcess
    cases spared.owner <;> rfl

theorem clearSpared_eq (he : r.page? pid v = some e) (hs : e.state = .resident f) :
    clearSpared r ⟨pid, v, f⟩ = r.setEntry pid v e.cold := by
  obtain ⟨p, hp, hreg, hentry⟩ := page?_eq_some_iff.1 he
  have htable : r.table? pid = some p.table := table?_eq_some_iff.2 ⟨p, hp, hreg, rfl⟩
  simp only [clearSpared, htable, PageTable.clearUsed, PageTable.residentIn_eq hentry hs]
  exact setTable_eq htable

/-- The hand passes over pinned frames: whatever else the table says, a victim has no pin. -/
theorem unpinned_of_steps {sweep : Sweep} (h : Sweep.steps n table hand = .ok sweep)
    (hvictim : sweep.victim = some (f, pid)) : ∃ i, table.info? f = some i ∧ i.pinCount = 0 := by
  induction n generalizing table hand sweep with
  | zero =>
    cases h
    cases hvictim
  | succ n ih =>
    obtain ⟨i, hi, hstep⟩ := Sweep.stepped h
    cases hstep with
    | passed _ hrest => exact ih hrest hvictim
    | spared _ hsame hrest =>
      -- a frame that is spared keeps its pins
      obtain ⟨j, hj, hj₀⟩ := ih hrest (hsame.symm.trans hvictim)
      rw [FrameTable.info?_put hi] at hj
      split at hj
      · next hf =>
        cases hj
        exact ⟨i, hf ▸ hi, hj₀⟩
      · exact ⟨j, hj, hj₀⟩
    | stopped hpin _ hstop =>
      cases hstop.symm.trans hvictim
      exact ⟨i, hi, by simpa [FrameInfo.isPinned] using hpin⟩

/-- The hand stops before it has met an owned frame without pins twice: the second time the bit is
    off that may have spared the frame.  The induction is on the steps that are left, with the way
    to the frame. -/
theorem victim_of_steps {d : Nat} {i : FrameInfo} {sweep : Sweep}
    (h : Sweep.steps n table hand = .ok sweep) (hhand : hand < table.size)
    (hi : table.info? f = some i) (ho : i.isOwned = true) (hpin : i.isPinned = false)
    (hmeet : Sweep.frameAt ((hand + d) % table.size) = f)
    (hd : d + (if i.mapping.used then table.size else 0) < n) :
    sweep.victim ≠ none := by
  induction n generalizing table hand d i sweep with
  | zero => omega
  | succ n ih =>
    have hnext : (hand + 1) % table.size < table.size := Nat.mod_lt _ (by omega)
    -- a frame that is not met now is one step nearer afterwards
    have hnear : Sweep.frameAt hand ≠ f →
        Sweep.frameAt (((hand + 1) % table.size + (d - 1)) % table.size) = f ∧
          d - 1 + (if i.mapping.used then table.size else 0) < n := by
      intro hf
      have hpos : d ≠ 0 := by
        rintro rfl
        rw [Nat.add_zero, Nat.mod_eq_of_lt hhand] at hmeet
        exact hf hmeet
      rw [Nat.mod_add_mod, Nat.add_assoc, Nat.add_sub_cancel' (by omega)]
      exact ⟨hmeet, by omega⟩
    obtain ⟨j, hj, hstep⟩ := Sweep.stepped h
    cases hstep with
    | passed hkept hrest =>
      have hf : Sweep.frameAt hand ≠ f := by
        rintro rfl
        cases hj.symm.trans hi
        rw [ho, hpin] at hkept
        simp at hkept
      exact ih hrest hnext hi ho hpin (hnear hf).1 (hnear hf).2
    | @spared rest hused hvictim hrest =>
      rw [hvictim]
      by_cases hf : Sweep.frameAt hand = f
      · -- the frame is met again after a turn
        subst hf
        cases hj.symm.trans hi
        have hturn : Sweep.frameAt (((hand + 1) % table.size + (table.size - 1)) % table.size) =
            Sweep.frameAt hand := by
          rw [Nat.mod_add_mod, Nat.add_assoc, Nat.add_sub_cancel' (by omega), Nat.add_mod_right,
            Nat.mod_eq_of_lt hhand]
        rw [hused, if_pos rfl] at hd
        refine ih hrest (by simpa using hnext) (FrameTable.info?_put_self hi) ho hpin
          (d := table.size - 1) (by simpa using hturn) ?_
        rw [if_neg (by simp)]
        omega
      · have hi' : ∀ {j}, (table.put (Sweep.frameAt hand) j).info? f = some i :=
          (FrameTable.info?_put_ne (Ne.symm hf)).trans hi
        obtain ⟨hmeet', hd'⟩ := hnear hf
        exact ih hrest (by simpa using hnext) hi' ho hpin (by simpa using hmeet')
          (by simpa using hd')
    | stopped _ _ hvictim => simp [hvictim]

/-- The victim is that of a sweep that may pass each frame twice. -/
theorem exists_sweep {victim : Option (Frame × Pid)} (h : r.selectVictim = .ok (victim, r')) :
    ∃ sweep, Sweep.steps (2 * r.frames.size) r.frames r.hand = .ok sweep ∧
      sweep.victim = victim := by
  unfold Residency.selectVictim FrameTable.selectVictim at h
  cases hrun : Sweep.steps (2 * r.frames.size) r.frames r.hand with
  | error e =>
    rw [hrun] at h
    cases h
  | ok sweep =>
    rw [hrun] at h
    exact ⟨sweep, rfl, congrArg Prod.fst (Except.ok.inj h)⟩

theorem unpinned_of_selectVictim (h : r.selectVictim = .ok (some (f, pid), r')) :
    ∃ i, r.frames.info? f = some i ∧ i.pinCount = 0 := by
  obtain ⟨sweep, hrun, hvictim⟩ := exists_sweep h
  exact unpinned_of_steps hrun hvictim

/-- There is no victim only if every owned frame is pinned. -/
theorem pinned_of_selectVictim {i : FrameInfo} (h : r.selectVictim = .ok (none, r'))
    (hhand : r.hand < r.frames.size) (hi : r.frames.info? f = some i) (hlt : f < limit32)
    (ho : i.isOwned = true) : i.isPinned = true := by
  obtain ⟨sweep, hrun, hnone⟩ := exists_sweep h
  refine Bool.of_not_eq_false fun hpin => ?_
  have hf := FrameTable.lt_size hi
  obtain ⟨d, hd, hmeet⟩ : ∃ d < r.frames.size, Sweep.frameAt ((r.hand + d) % r.frames.size) = f := by
    refine ⟨(f + r.frames.size - r.hand) % r.frames.size, Nat.mod_lt _ (by omega), ?_⟩
    rw [Nat.add_mod_mod, Nat.add_sub_cancel' (by omega), Nat.add_mod_right, Nat.mod_eq_of_lt hf,
      Sweep.frameAt_of_lt hlt]
  refine victim_of_steps hrun hhand hi ho hpin hmeet ?_ hnone
  split <;> omega

/-- What some steps of the hand end with, once the spared pages have followed: pages and
    frames that agree, and perhaps a frame with an owner and without pins. -/
structure SweptTo (pins : Frame → Nat) (r : Residency) (victim : Option (Frame × Pid))
    (r' : Residency) : Prop where
  coherent : r'.Coherent pins none
  cools : r.Cools r'
  size : r'.frames.size = r.frames.size
  owned : ∀ {f pid}, victim = some (f, pid) →
    ∃ i, r'.frames.info? f = some i ∧ i.owner = some pid ∧ i.pinCount = 0

/-- The induction is on the number of steps; the residency is general, since the bits of
    the spared page are turned off before the hand moves on. -/
theorem Coherent.steps (h : r.Coherent pins none) (hhand : hand < r.frames.size) :
    ∃ sweep, Sweep.steps n r.frames hand = .ok sweep ∧
      SweptTo pins r sweep.victim (sweep.spared.foldl clearSpared
        { r with frames := sweep.frames, hand := sweep.hand }) := by
  induction n generalizing r hand with
  | zero => exact ⟨_, rfl, h.moveHand hhand, Cools.refl.frames, rfl, (by simp)⟩
  | succ n ih =>
    have hframe : Sweep.frameAt hand < r.frames.size :=
      Nat.lt_of_le_of_lt Sweep.frameAt_le hhand
    obtain ⟨i, hi⟩ := FrameTable.lt_size_iff.1 hframe
    have hnext : (hand + 1) % r.frames.size < r.frames.size := Nat.mod_lt _ (by omega)
    unfold Sweep.steps
    simp only [FrameTable.lookup_eq hi, bind, Except.bind]
    cases ho : i.owner with
    | none => exact ih h hnext
    | some pid =>
      obtain ⟨e, he, hs, rfl⟩ := h.owned hi (by simp) ho
      change r.page? pid e.vpn = some e at he
      by_cases hpin : (FrameInfo.holding pid e (pins (Sweep.frameAt hand))).isPinned = true
      · simp only [hpin, if_true]
        exact ih h hnext
      · cases hused : e.used with
        | false =>
          have hmapping :
              (FrameInfo.holding pid e (pins (Sweep.frameAt hand))).mapping.used = false := hused
          simp only [hpin, hmapping, Bool.false_eq_true, if_false]
          refine ⟨_, rfl, h.moveHand hnext, Cools.refl.frames, rfl, ?_⟩
          rintro f q ⟨⟩
          refine ⟨_, hi, rfl, ?_⟩
          simpa [FrameInfo.isPinned] using hpin
        | true =>
          have hmapping :
              (FrameInfo.holding pid e (pins (Sweep.frameAt hand))).mapping.used = true := hused
          obtain ⟨hspare, hcools⟩ := h.spare he hs
          obtain ⟨sweep, hrun, hswept⟩ := ih hspare (by simpa using hnext)
          rw [frames_link] at hrun
          have hclear : r.frames.clearUsed (Sweep.frameAt hand) =
              .ok (r.frames.put (Sweep.frameAt hand) (.holding pid e.cold (pins (Sweep.frameAt hand)))) :=
            FrameTable.clearUsed_eq hi
          simp only [hpin, hmapping, Bool.false_eq_true, if_false, if_true, hclear, hrun]
          refine ⟨_, rfl, ?_⟩
          have hspared : clearSpared { r with frames := sweep.frames, hand := sweep.hand }
              ⟨pid, e.vpn, Sweep.frameAt hand⟩ =
              { r.link pid e.vpn e.cold (Sweep.frameAt hand)
                  (.holding pid e.cold (pins (Sweep.frameAt hand))) with
                frames := sweep.frames, hand := sweep.hand } := by
            rw [clearSpared_frames]
            exact congrArg (fun r' : Residency => { r' with frames := sweep.frames, hand := sweep.hand })
              (clearSpared_eq he hs)
          change SweptTo pins r sweep.victim (List.foldl clearSpared _ (_ :: sweep.spared))
          rw [List.foldl_cons]
          exact hspared ▸ ⟨hswept.coherent, hcools.trans hswept.cools,
            hswept.size.trans FrameTable.size_put, hswept.owned⟩

/-- The choice of a victim always ends, and leaves everything but `used` bits as it was. -/
theorem Coherent.selectVictim (h : r.Coherent pins none) :
    ∃ victim r', r.selectVictim = .ok (victim, r') ∧ SweptTo pins r victim r' := by
  obtain ⟨sweep, hrun, hswept⟩ := h.steps (n := 2 * r.frames.size) h.hand_lt
  refine ⟨sweep.victim, _, ?_, hswept⟩
  rw [Residency.selectVictim, FrameTable.selectVictim, hrun]
  rfl

end Residency

end DemandPaging
