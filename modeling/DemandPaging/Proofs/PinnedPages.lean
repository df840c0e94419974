/-
  What pins guarantee.

  A page whose frame is pinned stays in the frame, whatever the processes do, until its process
  ends; the frame then waits for its last pin, with no page in it.  A step moves no page into or
  out of a pinned frame (`Shifted.held`), so no operation does (`Operated.holding`), and no run
  does (`Keeping.holding`).

  * `Reachable.frameProtected`: a page pinned in a reachable kernel, after any operations that leave
    it a pin.
-/
import DemandPaging.Proofs.Agreement
import DemandPaging.Proofs.Operated

namespace DemandPaging.Kernel

variable {σ : Type} {c : Conduct σ} {pins : Frame → Nat} {k k' k₁ : Kernel σ} {pid q : Pid}
  {v w : Vpn} {e : PageEntry} {f g : Frame} {log : List Access} {write : Bool}

/-! ## Where pages are -/

/-- What a step may do to the places of pages: nothing, move one page into or out of a frame that
    no pin keeps, make pages that are in no frame, or end a process. -/
inductive Shifted (pins : Frame → Nat) (k k' : Kernel σ) : Prop where
  | still (hstates : ∀ q w, (k'.residency.page? q w).map (·.state) =
      (k.residency.page? q w).map (·.state))
  | moved {pid : Pid} {v : Vpn} {e : PageEntry} {f : Frame} {state : PageState}
    (he : k.residency.page? pid v = some e) (hpins : pins f = 0)
    (hfrom : ∀ g, e.state = .resident g → g = f) (hto : ∀ g, state = .resident g → g = f)
    (hstates : ∀ q w, (k'.residency.page? q w).map (·.state) =
      if q = pid ∧ w = v then some state else (k.residency.page? q w).map (·.state))
  | made (hnew : ∀ q w e, k'.residency.page? q w = some e →
      k.residency.page? q w = some e ∨ e.state = .absent)
    (hold : ∀ q w e, k.residency.page? q w = some e → k'.residency.page? q w = some e)
  | ended {pid : Pid} (h : k.Sound pins none) (hpages : ∀ q w, k'.residency.page? q w =
      if q = pid then none else k.residency.page? q w)
    (hended : ∀ o, k'.residency.outline? pid = some o → o.exited = true)

/-- Replacing the entry of a page that is in no frame but `f`, before and after. -/
theorem Shifted.of_link {e' : PageEntry} {i : FrameInfo} (he : k.residency.page? pid v = some e)
    (hpins : pins f = 0) (hfrom : ∀ g, e.state = .resident g → g = f)
    (hto : ∀ g, e'.state = .resident g → g = f)
    (hr : k'.residency = k.residency.link pid v e' f i) : Shifted pins k k' := by
  refine .moved he hpins hfrom hto fun q w => ?_
  rw [hr, Residency.page?_link he]
  split
  · rfl
  · rfl

theorem Step.shifted (h : Step c pins k k') : Shifted pins k k' := by
  cases h with
  | settled => exact .still fun _ _ => Residency.states_absorb
  | swept _ hswept => exact .still fun _ _ => hswept.cools.states
  | counted => exact .still fun _ _ => rfl
  | pooled => exact .still fun _ _ => congrArg _ Residency.page?_frames
  | vacated _ he hs hpins _ hvac =>
    have hfrom : ∀ g, PageEntry.state _ = .resident g → g = _ :=
      fun g hg => PageState.resident.inj (hg.symm.trans hs)
    cases hvac with
    | dropped => exact .of_link he hpins hfrom (by simp [PageEntry.evicted]) rfl
    | saved => exact .of_link he hpins hfrom (by simp [PageEntry.evicted]) rfl
    | refused => exact .still fun _ _ => rfl
  | loaded _ hpins _ he hs hfetch _ =>
    obtain ⟨_, _, rfl, -⟩ := hfetch.rest
    refine .of_link he hpins (fun g hg => absurd hg (hs g)) ?_ rfl
    exact fun g hg => (PageState.resident.inj hg).symm
  | returned _ _ _ hfetch =>
    obtain ⟨_, _, rfl, -⟩ := hfetch.rest
    exact .still fun _ _ => congrArg _ Residency.page?_frames
  | spawned _ hspawn =>
    cases hspawn with
    | refused => exact .still fun _ _ => rfl
    | made =>
      refine .made (fun q w e he => ?_) fun q w e he => Residency.page?_addProcess_of_some he
      rcases Residency.page?_addProcess he with hold | ⟨-, -, hnew⟩
      · exact .inl hold
      · exact .inr (congrArg PageEntry.state hnew)
  | exited h hexit =>
    cases hexit with
    | missing => exact .still fun _ _ => rfl
    | again => exact .still fun _ _ => rfl
    | ended =>
      refine .ended h (fun q w => Residency.page?_finish) fun o ho => ?_
      obtain ⟨o₀, -, rfl⟩ := Residency.outline?_finish_self ho
      rfl
  | forgotten _ hgone => exact .still fun _ _ => congrArg _ (Residency.page?_dropProcess hgone)

/-! ## Holding a frame -/

/-- Frame `f` is held for page `v` of process `pid`: the page is in it, or the process has ended
    and no page is in it. -/
inductive Held (f : Frame) (pid : Pid) (v : Vpn) (k : Kernel σ) : Prop where
  | there {e : PageEntry} (he : k.residency.page? pid v = some e) (hs : e.state = .resident f)
  | left (hpid : pid < k.residency.nextPid)
    (hended : ∀ o, k.residency.outline? pid = some o → o.exited = true)
    (hempty : ∀ q w e, k.residency.page? q w = some e → e.state ≠ .resident f)

/-- No page moves into a pinned frame. -/
theorem Shifted.empty (h : Shifted pins k k') (hpos : 0 < pins f)
    (hempty : ∀ q w e, k.residency.page? q w = some e → e.state ≠ .resident f) :
    ∀ q w e, k'.residency.page? q w = some e → e.state ≠ .resident f := by
  intro q w e he hs
  have hthere : (k.residency.page? q w).map (·.state) = some (.resident f) → False := by
    intro hstate
    obtain ⟨e₀, he₀, hs₀⟩ := Option.map_eq_some_iff.1 hstate
    exact hempty q w e₀ he₀ hs₀
  have hstate : (k'.residency.page? q w).map (·.state) = some (.resident f) := by
    rw [he, Option.map_some, hs]
  cases h with
  | still hstates => exact hthere ((hstates q w).symm.trans hstate)
  | moved _ hpins _ hto hstates =>
    rw [hstates] at hstate
    split at hstate
    · obtain rfl := hto f (Option.some.inj hstate)
      omega
    · exact hthere hstate
  | made hnew _ =>
    rcases hnew q w e he with hold | habsent
    · exact hempty q w e hold hs
    · cases hs.symm.trans habsent
  | ended _ hpages _ =>
    rw [hpages] at he
    split at he
    · cases he
    · exact hempty q w e he hs

/-- No page moves into a pinned frame, and none out of it but with its process. -/
theorem Shifted.held (h : Shifted pins k k') (hpos : 0 < pins f)
    (hnext : k.residency.nextPid ≤ k'.residency.nextPid)
    (houtline : ∀ {o'}, pid < k.residency.nextPid → k'.residency.outline? pid = some o' →
      ∃ o, k.residency.outline? pid = some o ∧ o.Ages o')
    (hk : k.Held f pid v) : k'.Held f pid v := by
  cases hk with
  | left hpid hended hempty =>
    refine .left (Nat.lt_of_lt_of_le hpid hnext) (fun o' ho' => ?_) (h.empty hpos hempty)
    obtain ⟨o, ho, hages⟩ := houtline hpid ho'
    exact hages.exited (hended o ho)
  | @there e he hs =>
    have hstay : (k'.residency.page? pid v).map (·.state) =
        (k.residency.page? pid v).map (·.state) → k'.Held f pid v := by
      intro hstate
      rw [he, Option.map_some, hs] at hstate
      obtain ⟨e', he', hs'⟩ := Option.map_eq_some_iff.1 hstate
      exact .there he' hs'
    cases h with
    | still hstates => exact hstay (hstates pid v)
    | @moved q w e₁ g state he₁ hpins hfrom hto hstates =>
      refine hstay ((hstates pid v).trans (if_neg ?_))
      rintro ⟨rfl, rfl⟩
      cases he.symm.trans he₁
      obtain rfl := hfrom f hs
      omega
    | made _ hold => exact .there (hold pid v e he) hs
    | @ended q hsound hpages hended =>
      by_cases hq : pid = q
      · subst hq
        obtain ⟨p, hp, -, -⟩ := Residency.page?_eq_some_iff.1 he
        refine .left (Nat.lt_of_lt_of_le (Residency.lt_nextPid hp) hnext) hended ?_
        intro q w e₁ he₁ hs₁
        rw [hpages] at he₁
        split at he₁
        · cases he₁
        · next hne => exact hne (hsound.frames.unique he hs he₁ hs₁).1
      · exact hstay (congrArg _ ((hpages pid v).trans (if_neg hq)))

/-- What leaves all pages in their places holds all frames. -/
theorem Held.of_states (hk : k.Held f pid v) (hpos : 0 < pins f)
    (hstates : ∀ q w, (k'.residency.page? q w).map (·.state) =
      (k.residency.page? q w).map (·.state))
    (hnext : k'.residency.nextPid = k.residency.nextPid)
    (houtline : k'.residency.outline? pid = k.residency.outline? pid) : k'.Held f pid v := by
  have hshifted : Shifted pins k k' := .still hstates
  exact hshifted.held hpos (Nat.le_of_eq hnext.symm)
    (fun _ ho => ⟨_, houtline.symm.trans ho, .refl⟩) hk

theorem Course.held (h : Course c pins k log k') (hpos : 0 < pins f) (hk : k.Held f pid v) :
    k'.Held f pid v := by
  refine h.preserves hk ?_ ?_ ?_
  · intro k k' hstep hk
    exact hstep.shifted.held hpos hstep.nextPid_le hstep.outline hk
  · intro k k' q w g write hacc hk
    exact hk.of_states hpos hacc.states hacc.nextPid (hacc.stays.keeps.outline pid)
  · intro k memory hk
    exact hk.of_states hpos (fun _ _ => rfl) rfl rfl

/-! ## Runs -/

/-- Operations that return, none of which takes the last pin off frame `f`. -/
inductive Keeping [BackingStore σ] (f : Frame) (k : Kernel σ) : Kernel σ → Prop where
  | start : Keeping f k k
  | step {k₁ k₂ : Kernel σ} {op : Operation} {r : Except PagingError Unit} (h : Keeping f k k₁)
    (hkeep : op = .unpin f → ∃ i, k₁.residency.frames.info? f = some i ∧ 1 < i.pinCount)
    (hrun : (operate op).run.run k₁ = .ok (r, k₂)) : Keeping f k k₂

/-- A sound kernel in which a pinned frame is held. -/
structure Holding (f : Frame) (pid : Pid) (v : Vpn) (pins : Frame → Nat) (k : Kernel σ) : Prop where
  sound : k.Sound pins none
  tlb : 0 < k.tlb.slots.length
  pos : 0 < pins f
  lt : f < k.memory.numFrames
  held : k.Held f pid v

theorem Holding.after {pins' : Frame → Nat} (h : k.Holding f pid v pins)
    (hdone : Continues pins' k k') (hpos : 0 < pins' f) (hheld : k'.Held f pid v) :
    k'.Holding f pid v pins' where
  sound := hdone.sound
  tlb := hdone.same.tlbSize ▸ h.tlb
  pos := hpos
  lt := by
    rw [hdone.sound.physPages, hdone.same.config, ← h.sound.physPages]
    exact h.lt
  held := hheld

/-- An operation that leaves frame `f` a pin goes on holding it. -/
theorem Operated.holding {op : Operation} {pins' : Frame → Nat}
    (hop : Operated c pins k op pins' k')
    (hkeep : op = .unpin f → ∃ i, k.residency.frames.info? f = some i ∧ 1 < i.pinCount)
    (h : k.Holding f pid v pins) : k'.Holding f pid v pins' := by
  refine h.after ⟨hop.sound h.sound, hop.same⟩ ?_ ?_
  · cases hop with
    | ran => exact h.pos
    | pinned =>
      unfold addPin
      split
      · exact Nat.succ_pos _
      · exact h.pos
    | @unpinned g _ hun =>
      by_cases hg : f = g
      · subst hg
        obtain ⟨i, hi, hmany⟩ := hkeep rfl
        have hcount : i.pinCount = pins f := h.sound.frames.pinned hi (by simp)
        rw [dropPin_self]
        omega
      · rw [dropPin_ne hg]
        exact h.pos
  · cases hop with
    | ran _ hcourse => exact hcourse.held h.pos h.held
    | pinned _ hcourse he _ _ =>
      exact (hcourse.held h.pos h.held).of_states h.pos (fun _ _ => Residency.state_link he rfl)
        Residency.nextPid_link (Residency.outline?_link he rfl)
    | unpinned hun =>
      refine h.held.of_states h.pos (fun _ _ => congrArg _ hun.page?) ?_ (hun.keeps.outline pid)
      cases hun <;> rfl

/-- The induction is on the operations; the ledger of pins changes along the way. -/
theorem Keeping.holding [BackingStore σ] (hrun : Keeping f k k') (h : k.Holding f pid v pins) :
    ∃ pins', k'.Holding f pid v pins' := by
  induction hrun with
  | start => exact ⟨pins, h⟩
  | step _ hkeep hop ih =>
    obtain ⟨pins₁, h₁⟩ := ih
    obtain ⟨pins₂, hop⟩ := (ends_operated .any h₁.sound h₁.tlb).of_run hop
    exact ⟨pins₂, hop.holding hkeep h₁⟩

/-! ## What holds of a pinned page -/

/-- The frame of a page that has ended with its process waits for its last pin. -/
theorem Holding.waiting (h : k.Holding f pid v pins)
    (hdead : ∀ p, k.residency.process? pid = some p → p.exited = true) :
    (∀ q w e, k.residency.page? q w = some e → e.state ≠ .resident f) ∧
      k.residency.frames.info? f = some ⟨none, {}, pins f, true⟩ := by
  have hempty : ∀ q w e, k.residency.page? q w = some e → e.state ≠ .resident f := by
    cases h.held with
    | left _ _ hempty => exact hempty
    | there he hs =>
      obtain ⟨p, hp, -, hentry⟩ := Residency.page?_eq_some_iff.1 he
      have hlive := (h.sound.live_of_resident hp hentry hs).2
      cases hlive.symm.trans (hdead p hp)
  refine ⟨hempty, ?_⟩
  obtain ⟨i, hi⟩ := FrameTable.lt_size_iff.1 (h.sound.numFrames.symm ▸ h.lt)
  have hcount : i.pinCount = pins f := h.sound.frames.pinned hi (by simp)
  have ho : i.owner = none := by
    cases ho : i.owner with
    | none => rfl
    | some q =>
      obtain ⟨e, he, hs, -⟩ := h.sound.frames.owned hi (by simp) ho
      exact absurd hs (hempty q _ e he)
  obtain ⟨hmapping, hplace⟩ := h.sound.frames.idle hi (by simp) ho
  have hinUse := Nat.not_le.2 (h.sound.lt_usable_of_pinned hi h.pos)
  have hfree := ((hplace.resolve_left (h.sound.notMem_of_pinned h.pos)).resolve_right hinUse).2
  obtain ⟨owner, mapping, pinCount, freeWhenUnpinned⟩ := i
  dsimp only at hcount ho hmapping hfree
  rw [hi, hcount, ho, hmapping, hfree]

/-- Frame `f` is protected for page `v` of process `pid`. -/
structure Protected [BackingStore σ] (f : Frame) (pid : Pid) (v : Vpn) (k : Kernel σ) : Prop where
  /-- As long as the process lives, the page is in the frame and the frame is its own. -/
  resident : ∀ {p}, k.residency.process? pid = some p → p.exited = false →
    (∃ e, p.table.find? v = some e ∧ e.state = .resident f) ∧
      ∃ i, k.residency.frames.info? f = some i ∧ i.owner = some pid ∧ i.mapping.vpn = v
  pinned : ∃ i, k.residency.frames.info? f = some i ∧ 0 < i.pinCount
  notFree : f ∉ k.residency.frames.pool.toList
  /-- The clock does not choose the frame, whatever else happens as long as pins stay. -/
  notVictim : ∀ {r r' : Residency} {g q}, (∀ h, (r.frames.info? h).map (·.pinCount) =
      (k.residency.frames.info? h).map (·.pinCount)) →
    r.selectVictim = .ok (some (g, q), r') → g ≠ f
  /-- No page gets the frame. -/
  notAllocated : ∀ {g k'}, allocateFrame.run.run k = .ok (.ok g, k') → g ≠ f
  /-- Once the process has ended nobody owns the frame and no page is in it; it waits. -/
  waiting : (∀ p, k.residency.process? pid = some p → p.exited = true) →
    (∃ n, k.residency.frames.info? f = some ⟨none, {}, n, true⟩) ∧
      ∀ {q p w e}, k.residency.process? q = some p → p.table.find? w = some e →
        e.state ≠ .resident f
  /-- The last pin then sends it to the pool, as if nothing had been known of it. -/
  returned : (∀ p, k.residency.process? pid = some p → p.exited = true) →
    ∀ {i}, k.residency.frames.info? f = some i → i.pinCount = 1 →
      ∃ k', (operate (.unpin f)).run.run k = .ok (.ok (), k') ∧
        k'.residency.frames.pool.toList = k.residency.frames.pool.toList ++ [f] ∧
        k'.residency.frames.info? f = some {}

section Protection

variable [BackingStore σ]

/-- The last pin of a frame that waits sends it to the pool. -/
theorem Holding.returned {i : FrameInfo} (h : k.Holding f pid v pins)
    (hdead : ∀ p, k.residency.process? pid = some p → p.exited = true)
    (hi : k.residency.frames.info? f = some i) (hone : i.pinCount = 1) :
    ∃ k', (Kernel.operate (.unpin f)).run.run k = .ok (.ok (), k') ∧
      k'.residency.frames.pool.toList = k.residency.frames.pool.toList ++ [f] ∧
        k'.residency.frames.info? f = some {} := by
  obtain ⟨-, hinfo⟩ := h.waiting hdead
  have hfree : i.freeWhenUnpinned = true := by
    rw [Option.some.inj (hi.symm.trans hinfo)]
  have hnot := h.sound.notMem_of_pinned h.pos
  have hunpin := FrameTable.unpin_eq_of_last hi hone hfree hnot
  have hends : Ends (fun _ => False) (onFrames (σ := σ) (·.unpin f)).run k fun r k' =>
      r = .ok () ∧ k' = k.withFree f := (ends_onFrames hunpin).2 ⟨rfl, rfl⟩
  obtain ⟨_, _, hrun, rfl, rfl⟩ := ends_iff_eq_ok.1 hends
  exact ⟨k.withFree f, hrun, FramePool.toList_push hnot, FrameTable.info?_put_self hi⟩

theorem Protected.of_holding (h : k.Holding f pid v pins) : k.Protected f pid v where
  resident := by
    intro p hp hlive
    cases h.held with
    | left _ hended _ =>
      have hdead : p.exited = true := hended _ (Residency.outline?_of_process hp)
      cases hlive.symm.trans hdead
    | there he hs =>
      obtain ⟨p', hp', -, hentry⟩ := Residency.page?_eq_some_iff.1 he
      cases hp.symm.trans hp'
      refine ⟨⟨_, hentry, hs⟩, _, (h.sound.frames.resident he hs).2, rfl, ?_⟩
      exact h.sound.frames.numbered he
  pinned := by
    obtain ⟨i, hi⟩ := FrameTable.lt_size_iff.1 (h.sound.numFrames.symm ▸ h.lt)
    have hcount : i.pinCount = pins f := h.sound.frames.pinned hi (by simp)
    exact ⟨i, hi, hcount ▸ h.pos⟩
  notFree := h.sound.notMem_of_pinned h.pos
  notVictim := by
    rintro r r' g q hpins hrun rfl
    obtain ⟨i, hi, hzero⟩ := Residency.unpinned_of_selectVictim hrun
    have hsame := (hpins g).symm
    rw [hi, Option.map_some, hzero] at hsame
    obtain ⟨j, hj, hnone⟩ := Option.map_eq_some_iff.1 hsame
    have hcount : j.pinCount = pins g := h.sound.frames.pinned hj (by simp)
    have hpos := h.pos
    omega
  notAllocated := by
    rintro g k' hrun rfl
    have hall := (ends_allocateFrame (c := .any σ) Conduct.any_holds h.sound
      fun _ _ hall => hall).of_run hrun
    have hzero := (hall.gained h.sound).unpinned
    have hpos := h.pos
    omega
  waiting := by
    intro hdead
    obtain ⟨hempty, hinfo⟩ := h.waiting hdead
    refine ⟨⟨_, hinfo⟩, fun hp he hs => ?_⟩
    exact hempty _ _ _ (h.sound.live_of_resident hp he hs).1 hs
  returned hdead _ hi hone := h.returned hdead hi hone

/-- A page that is pinned in a reachable kernel is protected from whatever the processes do: page
    faults, loads, stores and copies, pins of their own, their making and their end. -/
theorem Reachable.frameProtected (h : k.Reachable)
    (hpin : (pinPage pid v write).run.run k = .ok (.ok f, k₁)) (hrun : Keeping f k₁ k') :
    k'.Protected f pid v := by
  obtain ⟨pins, hsound, htlb⟩ := h.sound
  have hpage := (ends_pinPage .any hsound (fun _ _ => .inr trivial) fun _ _ hpage => hpage).of_run hpin
  have hholding : ∃ pins₁, k₁.Holding f pid v pins₁ := by
    cases hpage with
    | @pinned e _ k₂ hres he hs hwrite =>
      obtain ⟨⟨h₂, hkeeps⟩, -⟩ := hres.ready hsound
      refine ⟨addPin pins f, h₂.referenced he hs hwrite, ?_, (by simp), ?_, ?_⟩
      · exact hkeeps.tlbSize ▸ htlb
      · exact h₂.numFrames ▸ FrameTable.lt_size (h₂.frames.resident he hs).2
      · exact .there (Residency.page?_link_self he) hs
  obtain ⟨pins₁, hholding⟩ := hholding
  obtain ⟨pins', hfinal⟩ := hrun.holding hholding
  exact .of_holding hfinal

/-- A process ends while its only page is pinned: its frame, the only one, waits. -/
theorem Reachable.frameProtected_of_exit : ∃ k : Kernel MemoryStore,
    (k.residency.process? 1).map (·.exited) = some true ∧ k.residency.frames.pool.toList = [] ∧
      k.Protected 0 1 0 := by
  have hrun : (boot 4 { physPages := 1, tlbSize := 1, stackPages := 1 } ({} : MemoryStore) [] [] >>=
      fun k => (operate (.request (.spawn []))).run.run k >>= fun r₁ =>
        (pinPage 1 0 true).run.run r₁.2 >>= fun r₂ =>
          (operate (.request (.process 1 .exit))).run.run r₂.2 >>= fun r₃ =>
            .ok (r₂.1.toOption, (r₃.2.residency.process? 1).map (·.exited),
              r₃.2.residency.frames.pool.toList)).toOption = some (some 0, some true, []) := by
    decide +kernel
  obtain ⟨k, hboot, hrun⟩ := Checked.exists_of_toOption_bind hrun
  obtain ⟨⟨r₁, k₁⟩, hspawn, hrun⟩ := Checked.exists_of_toOption_bind hrun
  obtain ⟨⟨r₂, k₂⟩, hpin, hrun⟩ := Checked.exists_of_toOption_bind hrun
  obtain ⟨⟨r₃, k₃⟩, hexit, hrun⟩ := Checked.exists_of_toOption_bind hrun
  have hall := Option.some.inj hrun
  simp only [Prod.mk.injEq] at hall
  obtain ⟨hframe, hdead, hpool⟩ := hall
  have hreach : k₁.Reachable := .step (.fresh hboot) hspawn
  have hpinned : (pinPage 1 0 true).run.run k₁ = .ok (.ok 0, k₂) := by
    cases r₂ with
    | error e => cases hframe
    | ok f =>
      cases hframe
      exact hpin
  have hkeep : Keeping 0 k₂ k₃ := .step .start (by simp) hexit
  have hprotected : k₃.Protected 0 1 0 := Reachable.frameProtected hreach hpinned hkeep
  exact ⟨k₃, hdead, hpool, hprotected⟩

end Protection

end DemandPaging.Kernel
