/-
  The sweep, frame by frame.

  From its place the hand meets the frames in a circle.  It may take those that have an owner
  and no pin.  The first of them that has its bit off is the victim, and those before it are
  spared; if all have it on, all are spared and the first one is the victim.  A walk over
  frames that are all spared is one lemma (`exists_walk`); a sweep is such a walk and the step
  behind it (`exists_takes`), since two turns come to each frame twice (`prefix_met`).
-/
import DemandPaging.Proofs.Sweep
import Mathlib.Data.List.Forall2
import Mathlib.Data.List.TakeWhile

namespace DemandPaging

/-- The record of a frame with the `used` bit of its mapping off. -/
def FrameInfo.cold (i : FrameInfo) : FrameInfo :=
  { i with mapping := { i.mapping with used := false } }

namespace FrameTable

variable {table table' table'' : FrameTable} {hand n m : Nat} {f g : Frame} {fs gs : List Frame}
  {i : FrameInfo} {sweep : Sweep}

/-- The hand may take the frame: it has an owner and no pin. -/
def evictable (table : FrameTable) (f : Frame) : Bool :=
  (table.info? f).any fun i => i.isOwned && !i.isPinned

/-- The mapping recorded for the frame has its `used` bit on. -/
def isUsed (table : FrameTable) (f : Frame) : Bool :=
  (table.info? f).any (·.mapping.used)

/-- The frames that the hand may take, in circular order from the one that it points to. -/
def candidates (table : FrameTable) (hand : Nat) : List Frame :=
  (circle table.size (Sweep.frameAt hand)).filter table.evictable

/-- Every turn of the hand comes to all the frames that it may take, in their order. -/
def InReach (table : FrameTable) : Prop :=
  table.size ≤ limit32 ∨ ∀ f, table.evictable f = true → f < table.usable

/-! ## The frames that the hand may take -/

theorem evictable_iff :
    table.evictable f = true ↔
      ∃ i, table.info? f = some i ∧ i.isOwned = true ∧ i.isPinned = false := by
  simp [evictable, Option.any_eq_true]

theorem isUsed_eq (hi : table.info? f = some i) : table.isUsed f = i.mapping.used := by
  rw [isUsed, hi, Option.any_some]

theorem mem_candidates (hhand : 0 < table.size → hand < table.size) :
    f ∈ table.candidates hand ↔ table.evictable f = true := by
  refine ⟨fun h => (List.mem_filter.1 h).2, fun h => List.mem_filter.2 ⟨?_, h⟩⟩
  obtain ⟨i, hi, -⟩ := evictable_iff.1 h
  have hf := lt_size hi
  have hlt := hhand (Nat.zero_lt_of_lt hf)
  exact mem_circle (Nat.lt_of_le_of_lt Sweep.frameAt_le hlt) hf

theorem nodup_candidates : (table.candidates hand).Nodup := nodup_circle.filter _

/-- Without candidates every frame that has an owner is pinned. -/
theorem pinned_of_candidates_nil (hhand : 0 < table.size → hand < table.size)
    (hnone : table.candidates hand = []) (hi : table.info? f = some i) (howned : i.isOwned = true) :
    i.isPinned = true := by
  by_contra hpin
  have hmem : f ∈ table.candidates hand :=
    (mem_candidates hhand).2 (evictable_iff.2 ⟨i, hi, howned, Bool.not_eq_true _ ▸ hpin⟩)
  simp [hnone] at hmem

/-! ## Frames that lose their bit -/

/-- The bits of the frames `fs` have gone off, and nothing else has changed. -/
structure CooledBy (fs : List Frame) (table table' : FrameTable) : Prop where
  info : ∀ g, table'.info? g = (table.info? g).map fun i => if g ∈ fs then i.cold else i
  pool : table'.pool = table.pool
  size : table'.size = table.size

theorem CooledBy.refl : CooledBy [] table table := by
  refine ⟨fun g => ?_, rfl, rfl⟩
  simp

theorem CooledBy.trans (h : CooledBy fs table table') (h' : CooledBy gs table' table'') :
    CooledBy (fs ++ gs) table table'' := by
  refine ⟨fun g => ?_, h'.pool.trans h.pool, h'.size.trans h.size⟩
  rw [h'.info, h.info, Option.map_map]
  refine congrArg (Option.map · (table.info? g)) (funext fun i => ?_)
  simp only [Function.comp, List.mem_append]
  by_cases hf : g ∈ fs <;> by_cases hg : g ∈ gs <;> simp [hf, hg, FrameInfo.cold]

theorem cooledBy_put (hi : table.info? f = some i) : CooledBy [f] table (table.put f i.cold) := by
  refine ⟨fun g => ?_, rfl, size_put⟩
  rw [info?_put hi]
  by_cases hg : g = f
  · subst hg
    simp [hi]
  · simp [hg]

theorem CooledBy.evictable (h : CooledBy fs table table') : table'.evictable = table.evictable := by
  funext g
  rw [FrameTable.evictable, h.info, FrameTable.evictable]
  cases table.info? g with
  | none => rfl
  | some i =>
    simp only [Option.map_some, Option.any_some]
    split <;> rfl

theorem CooledBy.isUsed (h : CooledBy fs table table') (hg : g ∉ fs) :
    table'.isUsed g = table.isUsed g := by
  rw [FrameTable.isUsed, h.info, FrameTable.isUsed]
  simp [hg]

theorem CooledBy.isUsed_of_mem (h : CooledBy fs table table') (hg : g ∈ fs) :
    table'.isUsed g = false := by
  rw [FrameTable.isUsed, h.info]
  cases table.info? g <;> simp [hg, FrameInfo.cold]

/-- What is reported of a frame that is spared: its owner, the page recorded for it, its number. -/
def Reports (table : FrameTable) (f : Frame) (s : Spared) : Prop :=
  s.frame = f ∧ ∃ i, table.info? f = some i ∧ i.owner = some s.owner ∧ i.mapping.vpn = s.vpn

theorem CooledBy.reports {s : Spared} (h : CooledBy fs table table') (hs : table'.Reports f s) :
    table.Reports f s := by
  obtain ⟨hf, i, hi, howner, hvpn⟩ := hs
  rw [h.info] at hi
  obtain ⟨j, hj, rfl⟩ := Option.map_eq_some_iff.1 hi
  refine ⟨hf, j, hj, ?_⟩
  by_cases hmem : f ∈ fs <;> simpa [hmem, FrameInfo.cold] using And.intro howner hvpn

end FrameTable

/-! ## One step of the hand -/

/-- The sweep with more frames spared before it. -/
def Sweep.after (spared : List Spared) (sweep : Sweep) : Sweep :=
  { sweep with spared := spared ++ sweep.spared }

namespace Sweep

variable {table : FrameTable} {hand n : Nat} {i : FrameInfo} {pid : Pid} {sweep : Sweep}

theorem steps_pass (hi : table.info? (frameAt hand) = some i)
    (hkept : table.evictable (frameAt hand) = false) :
    steps (n + 1) table hand = steps n table ((hand + 1) % table.size) := by
  rw [FrameTable.evictable, hi, Option.any_some] at hkept
  rw [steps, FrameTable.lookup_eq hi]
  cases howner : i.owner with
  | none => simp [bind, Except.bind, howner]
  | some pid =>
    have hpin : i.isPinned = true := by simpa [FrameInfo.isOwned, howner] using hkept
    simp [bind, Except.bind, howner, hpin]

theorem steps_spare (hi : table.info? (frameAt hand) = some i) (howner : i.owner = some pid)
    (hpin : i.isPinned = false) (hused : i.mapping.used = true)
    (hrest : steps n (table.put (frameAt hand) i.cold) ((hand + 1) % table.size) = .ok sweep) :
    steps (n + 1) table hand = .ok (sweep.after [⟨pid, i.mapping.vpn, frameAt hand⟩]) := by
  have hclear : table.clearUsed (frameAt hand) = .ok (table.put (frameAt hand) i.cold) :=
    FrameTable.clearUsed_eq hi
  rw [steps, FrameTable.lookup_eq hi]
  simp only [bind, Except.bind, howner, hpin, hused, Bool.false_eq_true, if_false, if_true, hclear,
    hrest]
  rfl

theorem steps_stop (hi : table.info? (frameAt hand) = some i) (howner : i.owner = some pid)
    (hpin : i.isPinned = false) (hcold : i.mapping.used = false) :
    steps (n + 1) table hand =
      .ok ⟨some (frameAt hand, pid), [], table, (hand + 1) % table.size⟩ := by
  rw [steps, FrameTable.lookup_eq hi]
  simp only [bind, Except.bind, howner, hpin, hcold, Bool.false_eq_true, if_false]
  rfl

end Sweep

/-! ## A walk -/

namespace FrameTable

variable {table table' : FrameTable} {hand n : Nat} {f : Frame} {fs gs : List Frame}
  {i : FrameInfo} {sweep : Sweep}

/-- The hand walks over frames that have their bit on, or that it may not take.  The induction is
    on their number; no frame that it may take is met twice, so the bit of each is still what it was
    when the hand comes to it. -/
theorem exists_walk (hhand : hand < table.size)
    (hnodup : ((met table.size hand n).filter table.evictable).Nodup)
    (hused : ∀ f ∈ (met table.size hand n).filter table.evictable, table.isUsed f = true) :
    ∃ spared table', List.Forall₂ table.Reports ((met table.size hand n).filter table.evictable)
        spared ∧
      CooledBy ((met table.size hand n).filter table.evictable) table table' ∧
      ∀ {k sweep}, Sweep.steps k table' ((hand + n) % table.size) = .ok sweep →
        Sweep.steps (n + k) table hand = .ok (sweep.after spared) := by
  induction n generalizing table hand with
  | zero =>
    refine ⟨[], table, .nil, .refl, fun {k sweep} hrest => ?_⟩
    rw [Nat.add_zero, Nat.mod_eq_of_lt hhand] at hrest
    rw [Nat.zero_add, hrest]
    rfl
  | succ n ih =>
    obtain ⟨i, hi⟩ := lt_size_iff.1 (Nat.lt_of_le_of_lt Sweep.frameAt_le hhand)
    have hnext : (hand + 1) % table.size < table.size := Nat.mod_lt _ (by omega)
    have hplace : ((hand + 1) % table.size + n) % table.size = (hand + (n + 1)) % table.size := by
      rw [Nat.mod_add_mod, Nat.add_assoc, Nat.add_comm 1 n]
    rw [met_succ hhand] at hnodup hused ⊢
    cases hmay : table.evictable (Sweep.frameAt hand) with
    | false =>
      rw [List.filter_cons_of_neg (by simp [hmay])] at hnodup hused ⊢
      obtain ⟨spared, table', hreports, hcooled, hwalk⟩ := ih hnext hnodup hused
      refine ⟨spared, table', hreports, hcooled, fun {k sweep} hk => ?_⟩
      rw [Nat.add_right_comm, Sweep.steps_pass hi hmay]
      exact hwalk (hplace ▸ hk)
    | true =>
      rw [List.filter_cons_of_pos hmay] at hnodup hused ⊢
      obtain ⟨hfresh, hrest⟩ := List.nodup_cons.1 hnodup
      obtain ⟨j, hj, howned, hpin⟩ := evictable_iff.1 hmay
      cases hi.symm.trans hj
      obtain ⟨pid, howner⟩ := Option.isSome_iff_exists.1 howned
      have hon : i.mapping.used = true := isUsed_eq hi ▸ hused _ List.mem_cons_self
      have hput := cooledBy_put hi
      have hused' : ∀ f ∈ (met table.size ((hand + 1) % table.size) n).filter table.evictable,
          (table.put (Sweep.frameAt hand) i.cold).isUsed f = true := by
        intro f hf
        have hother : f ∉ [Sweep.frameAt hand] := by
          intro h
          cases List.mem_singleton.1 h
          exact hfresh hf
        rw [hput.isUsed hother]
        exact hused f (List.mem_cons_of_mem _ hf)
      have htail := @ih (table.put (Sweep.frameAt hand) i.cold) ((hand + 1) % table.size)
      rw [hput.size, hput.evictable] at htail
      obtain ⟨spared, table', hreports, hcooled, hwalk⟩ := htail hnext hrest hused'
      refine ⟨⟨pid, i.mapping.vpn, Sweep.frameAt hand⟩ :: spared, table',
        .cons ⟨rfl, i, hi, howner, rfl⟩ (hreports.imp fun _ _ => hput.reports),
        hput.trans hcooled, fun {k sweep} hk => ?_⟩
      rw [Nat.add_right_comm, Sweep.steps_spare hi howner hpin hon (hwalk (hplace ▸ hk))]
      rfl

/-- What a sweep does that spares the frames `before` and takes the frame `f`. -/
structure Takes (table : FrameTable) (before : List Frame) (f : Frame) (sweep : Sweep) : Prop where
  victim : ∃ i pid, table.info? f = some i ∧ i.owner = some pid ∧ sweep.victim = some (f, pid)
  spared : List.Forall₂ table.Reports before sweep.spared
  frames : CooledBy before table sweep.frames
  /-- The hand has gone on from a place where it pointed to the frame. -/
  hand : ∃ place < table.size, Sweep.frameAt place = f ∧ sweep.hand = (place + 1) % table.size

/-- The hand walks over the frames `fs`, spares them, and takes the frame that it comes to then: the
    bit of this one was off before, or it is off by now. -/
theorem exists_takes (hhand : hand < table.size)
    (hpassed : (met table.size hand n).filter table.evictable = fs) (hnodup : fs.Nodup)
    (hused : ∀ g ∈ fs, table.isUsed g = true)
    (hplace : Sweep.frameAt ((hand + n) % table.size) = f) (hmay : table.evictable f = true)
    (hcold : f ∈ fs ∨ table.isUsed f = false) :
    ∃ sweep, (∀ {k}, n < k → Sweep.steps k table hand = .ok sweep) ∧ table.Takes fs f sweep ∧
      sweep.hand = ((hand + n) % table.size + 1) % table.size := by
  have hnext : (hand + n) % table.size < table.size := Nat.mod_lt _ (by omega)
  obtain ⟨spared, table', hreports, hcooled, hwalk⟩ :=
    exists_walk (n := n) hhand (hpassed ▸ hnodup) (hpassed ▸ hused)
  rw [hpassed] at hreports hcooled
  obtain ⟨i, hi, howned, hpin⟩ := evictable_iff.1 hmay
  obtain ⟨pid, howner⟩ := Option.isSome_iff_exists.1 howned
  -- the record that the hand finds
  obtain ⟨j, hj, hjowner, hjpin⟩ :
      ∃ j, table'.info? f = some j ∧ j.owner = some pid ∧ j.isPinned = false := by
    have hinfo := hcooled.info f
    rw [hi, Option.map_some] at hinfo
    refine ⟨_, hinfo, ?_⟩
    split <;> exact ⟨howner, hpin⟩
  have hjcold : j.mapping.used = false := by
    rw [← isUsed_eq hj]
    rcases hcold with hmem | hoff
    · exact hcooled.isUsed_of_mem hmem
    · rw [hcooled.isUsed fun hmem => ?_, hoff]
      rw [hused f hmem] at hoff
      cases hoff
  refine ⟨(⟨some (f, pid), [], table', ((hand + n) % table.size + 1) % table'.size⟩ : Sweep).after
    spared, fun {k} hk => ?_, ⟨⟨i, pid, hi, howner, rfl⟩, ?_, hcooled, ?_⟩, ?_⟩
  · obtain ⟨d, rfl⟩ : ∃ d, k = n + (d + 1) := ⟨k - n - 1, by omega⟩
    refine hwalk ?_
    rw [Sweep.steps_stop (hplace.symm ▸ hj) hjowner hjpin hjcold, hplace]
  · simpa [Sweep.after] using hreports
  · exact ⟨_, hnext, hplace, congrArg (_ % ·) hcooled.size⟩
  · exact congrArg (_ % ·) hcooled.size

/-- The same on the frames that may be taken: two turns are enough. -/
theorem exists_takes_of_candidates (hhand : hand < table.size) (hreach : table.InReach)
    (hcands : table.candidates hand ++ table.candidates hand = fs ++ f :: gs) (hnodup : fs.Nodup)
    (hused : ∀ g ∈ fs, table.isUsed g = true) (hcold : f ∈ fs ∨ table.isUsed f = false) :
    ∃ sweep, (∀ {k}, 2 * table.size ≤ k → Sweep.steps k table hand = .ok sweep) ∧
      table.Takes fs f sweep := by
  obtain ⟨rest, hmet⟩ := prefix_met hhand hreach
  have hsplit : (met table.size hand (2 * table.size)).filter table.evictable =
      fs ++ f :: (gs ++ rest) := by
    rw [← hmet, ← List.cons_append, ← List.append_assoc, ← hcands]
    rfl
  obtain ⟨n, hn, hpassed, hplace, hmay⟩ := exists_step hsplit
  obtain ⟨sweep, hrun, htakes, -⟩ := exists_takes hhand hpassed hnodup hused hplace hmay hcold
  exact ⟨sweep, fun {k} hk => hrun (Nat.lt_of_lt_of_le hn hk), htakes⟩

/-- The first frame that has its bit off is taken. -/
theorem exists_takes_of_cold (hhand : hand < table.size) (hreach : table.InReach)
    (hcands : table.candidates hand = fs ++ f :: gs) (hused : ∀ g ∈ fs, table.isUsed g = true)
    (hcold : table.isUsed f = false) :
    ∃ sweep, (∀ {k}, 2 * table.size ≤ k → Sweep.steps k table hand = .ok sweep) ∧
      table.Takes fs f sweep := by
  have hnodup : fs.Nodup := (List.nodup_append.1 (hcands ▸ nodup_candidates)).1
  have htwice : table.candidates hand ++ table.candidates hand =
      fs ++ f :: (gs ++ (fs ++ f :: gs)) := by
    rw [hcands, List.append_assoc, List.cons_append]
  exact exists_takes_of_candidates hhand hreach htwice hnodup hused (.inr hcold)

/-- If every frame that may be taken has its bit on, all are spared and the first is taken on the
    second turn. -/
theorem exists_turned (hhand : hand < table.size) (hreach : table.InReach)
    (hcands : table.candidates hand = f :: fs) (hused : ∀ g ∈ f :: fs, table.isUsed g = true) :
    ∃ sweep, (∀ {k}, 2 * table.size ≤ k → Sweep.steps k table hand = .ok sweep) ∧
      Takes table (f :: fs) f sweep :=
  exists_takes_of_candidates hhand hreach (by rw [hcands]) (hcands ▸ nodup_candidates) hused
    (.inl List.mem_cons_self)

/-- Without a frame that it may take the hand goes round in vain. -/
theorem steps_of_pinned (hhand : hand < table.size) (hnone : ∀ f, table.evictable f = false) :
    Sweep.steps n table hand = .ok ⟨none, [], table, (hand + n) % table.size⟩ := by
  induction n generalizing hand with
  | zero => rw [Nat.add_zero, Nat.mod_eq_of_lt hhand, Sweep.steps]
  | succ n ih =>
    obtain ⟨i, hi⟩ := lt_size_iff.1 (Nat.lt_of_le_of_lt Sweep.frameAt_le hhand)
    rw [Sweep.steps_pass hi (hnone _), ih (Nat.mod_lt _ (by omega)), Nat.mod_add_mod,
      Nat.add_assoc, Nat.add_comm 1 n]

/-! ## The sweep -/

/-- Either there is no frame to take, or one has its bit off, or all have it on. -/
theorem candidates_cases (table : FrameTable) (hand : Nat) :
    table.candidates hand = [] ∨
      (∃ before f after, table.candidates hand = before ++ f :: after ∧
        (∀ g ∈ before, table.isUsed g = true) ∧ table.isUsed f = false) ∨
      ∃ f rest, table.candidates hand = f :: rest ∧ ∀ g ∈ f :: rest, table.isUsed g = true := by
  cases hfind : (table.candidates hand).find? fun g => !table.isUsed g with
  | some f =>
    obtain ⟨hcold, before, after, hcands, hused⟩ := List.find?_eq_some_iff_append.1 hfind
    exact .inr (.inl ⟨before, f, after, hcands, by simpa using hused, by simpa using hcold⟩)
  | none =>
    have hused : ∀ g ∈ table.candidates hand, table.isUsed g = true := by
      simpa using List.find?_eq_none.1 hfind
    cases hcands : table.candidates hand with
    | nil => exact .inl rfl
    | cons f rest => exact .inr (.inr ⟨f, rest, rfl, hcands ▸ hused⟩)

/-- A sweep finds nothing to take and changes nothing, or takes the first frame that has its bit
    off, or just the first one. -/
theorem selectVictim_cases (hhand : 0 < table.size → hand < table.size) (hreach : table.InReach) :
    (table.candidates hand = [] ∧ table.selectVictim hand = .ok ⟨none, [], table, hand⟩) ∨
      ∃ f sweep,
        ((table.candidates hand).find? fun g => !table.isUsed g).or (table.candidates hand).head? =
            some f ∧
          table.Takes ((table.candidates hand).takeWhile table.isUsed) f sweep ∧
          ∀ {k}, 2 * table.size ≤ k → Sweep.steps k table hand = .ok sweep := by
  have hlt : ∀ f, f ∈ table.candidates hand → hand < table.size := fun f hf => by
    obtain ⟨i, hi, -⟩ := evictable_iff.1 ((mem_candidates hhand).1 hf)
    exact hhand (Nat.zero_lt_of_lt (lt_size hi))
  obtain hcands | ⟨before, f, after, hcands, hused, hcold⟩ | ⟨f, rest, hcands, hused⟩ :=
    candidates_cases table hand
  · have hnone : ∀ f, table.evictable f = false := fun f =>
      Bool.eq_false_iff.2 fun hmay => by
        simpa [hcands] using (mem_candidates hhand).2 hmay
    refine .inl ⟨hcands, ?_⟩
    obtain hzero | hpos := Nat.eq_zero_or_pos table.size
    · rw [FrameTable.selectVictim, hzero, Sweep.steps]
    · rw [FrameTable.selectVictim, steps_of_pinned (hhand hpos) hnone,
        Nat.add_mul_mod_self_right, Nat.mod_eq_of_lt (hhand hpos)]
  · obtain ⟨sweep, hrun, htakes⟩ :=
      exists_takes_of_cold (hlt f (by simp [hcands])) hreach hcands hused hcold
    have hfind : (table.candidates hand).find? (fun g => !table.isUsed g) = some f :=
      List.find?_eq_some_iff_append.2 ⟨by simp [hcold], before, after, hcands, by simpa using hused⟩
    have hwhile : (table.candidates hand).takeWhile table.isUsed = before := by
      rw [hcands, List.takeWhile_append_of_pos hused, List.takeWhile_cons_of_neg (by simp [hcold]),
        List.append_nil]
    exact .inr ⟨f, sweep, by rw [hfind, Option.some_or], hwhile.symm ▸ htakes, hrun⟩
  · obtain ⟨sweep, hrun, htakes⟩ := exists_turned (hlt f (by simp [hcands])) hreach hcands hused
    have hfind : (f :: rest).find? (fun g => !table.isUsed g) = none :=
      List.find?_eq_none.2 (by simpa using hused)
    have hwhile : (f :: rest).takeWhile table.isUsed = f :: rest :=
      List.takeWhile_eq_self_iff.2 hused
    rw [hcands, hfind, hwhile]
    exact .inr ⟨f, sweep, rfl, htakes, hrun⟩

/-- What a sweep from `hand` ends with. -/
structure SecondChance (table : FrameTable) (hand : Nat) (sweep : Sweep) : Prop where
  none_iff : sweep.victim = none ↔
    ∀ f i, table.info? f = some i → i.isOwned = true → i.isPinned = true
  untouched : sweep.victim = none → sweep = ⟨none, [], table, hand⟩
  /-- The first frame with its bit off is taken, and those before it are spared. -/
  cold : ∀ {before f after}, table.candidates hand = before ++ f :: after →
    (∀ g ∈ before, table.isUsed g = true) → table.isUsed f = false → table.Takes before f sweep
  /-- If all bits are on, all go off, and the first frame is taken. -/
  turned : ∀ {f rest}, table.candidates hand = f :: rest →
    (∀ g ∈ f :: rest, table.isUsed g = true) → table.Takes (f :: rest) f sweep
  /-- The next sweep starts behind the victim. -/
  next : ∀ {f pid}, sweep.victim = some (f, pid) → sweep.hand = (f + 1) % table.size
  /-- Nobody is reported twice. -/
  once : (sweep.spared.map (·.frame)).Nodup
  /-- Two turns are enough. -/
  enough : ∀ {n}, 2 * table.size ≤ n → sweep.victim ≠ none → Sweep.steps n table hand = .ok sweep

theorem Takes.victim_ne_none (h : table.Takes fs f sweep) : sweep.victim ≠ none := by
  obtain ⟨i, pid, -, -, hvictim⟩ := h.victim
  simp [hvictim]

theorem Takes.frames_spared (h : table.Takes fs f sweep) :
    sweep.spared.map (·.frame) = fs := by
  have hframes : List.Forall₂ (fun f s => f = s.frame) fs sweep.spared :=
    h.spared.imp fun _ _ hs => hs.1.symm
  rw [← List.forall₂_map_right_iff, List.forall₂_eq_eq_eq] at hframes
  exact hframes.symm

/-- Where every place of the hand is a frame, the hand has gone on from the victim. -/
theorem Takes.next (h : table.Takes fs f sweep) (hsize : table.size ≤ limit32) {pid : Pid}
    (hvictim : sweep.victim = some (g, pid)) : sweep.hand = (g + 1) % table.size := by
  obtain ⟨i, q, -, -, htaken⟩ := h.victim
  obtain ⟨place, hlt, hplace, hhand⟩ := h.hand
  rw [Sweep.frameAt_of_lt (Nat.lt_of_lt_of_le hlt hsize)] at hplace
  cases htaken.symm.trans hvictim
  rw [hhand, hplace]

/-- The sweep gives every frame a second chance, wherever the hand is, in a table of at most 2^32
    frames. -/
theorem selectVictim_secondChance (hhand : 0 < table.size → hand < table.size)
    (hsize : table.size ≤ limit32) :
    ∃ sweep, table.selectVictim hand = .ok sweep ∧ table.SecondChance hand sweep := by
  have hreach : table.InReach := .inl hsize
  obtain ⟨hcands, hrun⟩ | ⟨f, sweep, hchoice, htakes, hrun⟩ := selectVictim_cases hhand hreach
  · refine ⟨_, hrun, ⟨fun _ f i => pinned_of_candidates_nil hhand hcands, fun _ => rfl⟩,
      fun _ => rfl, ?_, ?_, nofun, .nil, fun _ hne => absurd rfl hne⟩
    · intro before f after hsplit
      simp [hcands] at hsplit
    · intro f rest hsplit
      simp [hcands] at hsplit
  · have hf : f ∈ table.candidates hand :=
      (Option.or_eq_some_iff.1 hchoice).elim List.mem_of_find?_eq_some
        fun h => List.mem_of_head? h.2
    obtain ⟨i, hi, howned, hpin⟩ := evictable_iff.1 ((mem_candidates hhand).1 hf)
    have hlt := hhand (Nat.zero_lt_of_lt (lt_size hi))
    refine ⟨sweep, hrun (Nat.le_refl _), {
      none_iff := ⟨fun hnone => absurd hnone htakes.victim_ne_none, fun hpinned => ?_⟩
      untouched := fun hnone => absurd hnone htakes.victim_ne_none
      cold := fun hcands hused hcold => ?_, turned := fun hcands hused => ?_
      next := htakes.next hsize
      once := htakes.frames_spared.symm ▸ nodup_candidates.sublist (List.takeWhile_sublist _)
      enough := fun hn _ => hrun hn }⟩
    · rw [hpinned f i hi howned] at hpin
      cases hpin
    · obtain ⟨sweep', hrun', htakes'⟩ := exists_takes_of_cold hlt hreach hcands hused hcold
      cases (hrun (Nat.le_refl _)).symm.trans (hrun' (Nat.le_refl _))
      exact htakes'
    · obtain ⟨sweep', hrun', htakes'⟩ := exists_turned hlt hreach hcands hused
      cases (hrun (Nat.le_refl _)).symm.trans (hrun' (Nat.le_refl _))
      exact htakes'

/-- The table of three frames: nobody owns frame 1, frame 2 is pinned, and frame 0 has its bit
    on. -/
def lonely : FrameTable where
  frames := Row.ofList
    [{ owner := some 1, mapping := { vpn := 4, valid := true, used := true } }, {},
      { owner := some 2, mapping := { ppn := 2, valid := true, used := true }, pinCount := 1 }]
  pool := FramePool.create 0

/-- From frame 1 on, `lonely` has its victim behind the hand.  The sixth step of the two turns finds
    it, and no earlier one. -/
theorem selectVictim_lonely :
    ((0 < lonely.size → 1 < lonely.size) ∧ lonely.size ≤ limit32) ∧
      (∃ sweep, lonely.selectVictim 1 = .ok sweep ∧ lonely.SecondChance 1 sweep ∧
        sweep.victim = some (0, 1) ∧ sweep.spared = [⟨1, 4, 0⟩] ∧ sweep.hand = 1) ∧
      (Sweep.steps 5 lonely 1).toOption.map (·.victim) = some none := by
  have hhand : 0 < lonely.size → 1 < lonely.size := by decide +kernel
  have hsize : lonely.size ≤ limit32 := by decide +kernel
  have hrun : (lonely.selectVictim 1).toOption.map (fun s => (s.victim, s.spared, s.hand)) =
      some (some (0, 1), [⟨1, 4, 0⟩], 1) := by decide +kernel
  obtain ⟨sweep, hsweep, hspec⟩ := selectVictim_secondChance hhand hsize
  rw [hsweep] at hrun
  simp only [Except.toOption, Option.map_some, Option.some.injEq, Prod.mk.injEq] at hrun
  exact ⟨⟨hhand, hsize⟩, ⟨sweep, hsweep, hspec, hrun.1, hrun.2.1, hrun.2.2⟩, by decide +kernel⟩

/-! ## Tables of more than 2^32 frames -/

/-- A table of `n` frames that nobody owns behind two frames of process 1, of which the first has
    its bit on. -/
def wide (n : Nat) : FrameTable where
  frames := Row.ofList
    ({ owner := some 1, mapping := { valid := true, used := true } } ::
      { owner := some 1, mapping := { vpn := 1, ppn := 1, valid := true } } :: List.replicate n {})
  pool := FramePool.create 0

theorem info?_wide : (wide n).info? f =
    ({ owner := some 1, mapping := { valid := true, used := true } } ::
      { owner := some 1, mapping := { vpn := 1, ppn := 1, valid := true } } ::
        List.replicate n ({} : FrameInfo))[f]? := by
  rw [info?_eq, wide, Row.toList_ofList]

theorem size_wide : (wide n).size = n + 2 := by simp [size, wide]

theorem evictable_wide_of_le (hf : 2 ≤ f) : (wide n).evictable f = false := by
  obtain ⟨d, rfl⟩ := Nat.exists_eq_add_of_le' hf
  rw [evictable, info?_wide, List.getElem?_cons_succ, List.getElem?_cons_succ,
    List.getElem?_replicate]
  split <;> rfl

/-- From the last frame on, the circle comes to the two owned frames in their order. -/
theorem filter_circle_wide (hn : 0 < n) :
    (circle (wide n).size (n + 1)).filter (wide n).evictable = [0, 1] := by
  have hzero : (wide n).evictable 0 = true := by rw [evictable, info?_wide]; rfl
  have hone : (wide n).evictable 1 = true := by rw [evictable, info?_wide]; rfl
  have hnone : ∀ k, (List.range' 2 k).filter (wide n).evictable = [] := fun k =>
    List.filter_eq_nil_iff.2 fun f hf => by
      simp [evictable_wide_of_le (List.mem_range'_1.1 hf).1]
  obtain ⟨m, rfl⟩ : ∃ m, n = m + 1 := ⟨n - 1, by omega⟩
  rw [size_wide, circle_eq (by omega), show m + 1 + 2 - (m + 1 + 1) = 1 by omega, List.range'_one,
    List.range'_succ, List.range'_succ, List.filter_append, List.filter_cons_of_neg,
    List.filter_cons_of_pos hzero, List.filter_cons_of_pos hone, hnone]
  · rfl
  · exact Bool.eq_false_iff.1 (evictable_wide_of_le (Nat.le_add_left 2 m))

/-- Frames have 32-bit numbers, so that from the last place of a table of 2^32 + 2 frames the hand
    points to frame 1.  In the circle of the table frame 0 comes before it, and has its bit on; but
    it is neither spared nor reported, and the hand goes on from the first place. -/
theorem selectVictim_wide :
    limit32 + 1 < (wide limit32).size ∧
      (circle (wide limit32).size (limit32 + 1)).filter (wide limit32).evictable = [0, 1] ∧
      (wide limit32).isUsed 0 = true ∧ (wide limit32).isUsed 1 = false ∧
      (wide limit32).selectVictim (limit32 + 1) = .ok ⟨some (1, 1), [], wide limit32, 0⟩ := by
  have hplace : Sweep.frameAt (limit32 + 1) = 1 := by decide
  have hinfo : (wide limit32).info? (Sweep.frameAt (limit32 + 1)) =
      some { owner := some 1, mapping := { vpn := 1, ppn := 1, valid := true } } := by
    rw [hplace, info?_wide]
    rfl
  have hlast : limit32 + 1 < (wide limit32).size := by
    rw [size_wide]
    exact Nat.lt_succ_self _
  refine ⟨hlast, filter_circle_wide (by decide), ?_, ?_, ?_⟩
  · rw [isUsed, info?_wide]
    rfl
  · rw [isUsed, info?_wide]
    rfl
  · have hsteps : 2 * (wide limit32).size = (2 * limit32 + 3) + 1 := by rw [size_wide]; omega
    rw [selectVictim, hsteps, Sweep.steps_stop hinfo rfl rfl rfl, hplace, size_wide, Nat.mod_self]

end FrameTable

end DemandPaging
