/-
  A process that has too many pages in frames to exit.

  A process without an image, and a machine with as many frames as the process has pages: a miss of
  each page in turn takes each frame from the pool (`Filled.serve`, `Filled.run`).  With pages of
  one byte both may be 2^31 or more.  The exit of such a process counts the frames that it gives
  back in signed 32-bit numbers, and stops half-way.

  * `exists_filled`: the process comes to have all its pages in frames;
  * `boot_run_overflows`: its exit, at the end of a run of requests;
  * `Strained.exit_stops`: the exit, and what an access after it can come to on very large pages.
-/
import DemandPaging.Proofs.Exit
import DemandPaging.Proofs.Unstopped

namespace DemandPaging.Kernel

variable {σ : Type} {c : Conduct σ} {pins : Frame → Nat} {k k' : Kernel σ} {pid : Pid} {p : Process}
  {v : Vpn} {e : PageEntry} {f : Frame} {total n m : Nat}

/-! ## A fault that takes a frame from the pool -/

/-- As long as there are frames in the pool, nothing is evicted. -/
theorem Allocated.of_pool {r : Except PagingError Frame} (hall : Allocated c pins k r k')
    (hpool : k.residency.frames.pool.toList ≠ []) :
    ∃ f table, k.residency.frames.takeOne = some (f, table) ∧ r = .ok f ∧
      k' = { k with residency := { k.residency with frames := table } } := by
  have hfull : k.residency.frames.takeOne ≠ none := fun hnone =>
    hpool (FrameTable.takeOne_eq_none.1 hnone)
  cases hall with
  | pooled htake => exact ⟨_, _, htake, rfl, rfl⟩
  | noVictim hempty => exact absurd hempty hfull
  | taken hchosen => exact absurd hchosen.empty hfull
  | refused hchosen => exact absurd hchosen.empty hfull

/-- Without an image, pages that have no content yet come as zeroes. -/
theorem Fetched.of_bare {r : Except PagingError Bytes} (hfetch : Fetched c p e k r k')
    (hs : e.state = .absent) (hbare : p.executable = []) :
    r = .ok (Bytes.zeros k.memory.pageSize) ∧ k' = k := by
  cases hfetch with
  | swapped hslot => cases hs.symm.trans hslot
  | image _ _ _ hid => simp [hbare] at hid
  | zero => exact ⟨rfl, rfl⟩

/-- A page has come into a frame from the pool, and no other page has moved. -/
structure Seated (pid : Pid) (v : Vpn) (k k' : Kernel σ) : Prop where
  seat : ∃ f, k'.state? pid v = some (.resident f)
  others : ∀ q w, ¬ (q = pid ∧ w = v) → k'.state? q w = k.state? q w
  pool : k.residency.frames.pool.toList.length = k'.residency.frames.pool.toList.length + 1

theorem PagedIn.seated {r : Except PagingError Mapping} (hin : PagedIn c pins pid p v e k r k')
    (he : k.residency.page? pid v = some e) (hs : e.state = .absent) (hbare : p.executable = [])
    (hpool : k.residency.frames.pool.toList ≠ []) : (∃ m, r = .ok m) ∧ Seated pid v k k' := by
  have hpool₁ : k.faulting.residency.frames.pool.toList ≠ [] := hpool
  cases hin with
  | starved hall =>
    obtain ⟨_, _, -, hr, -⟩ := hall.of_pool hpool₁
    cases hr
  | failed _ hfetch =>
    obtain ⟨hr, -⟩ := hfetch.of_bare hs hbare
    cases hr
  | @loaded f _ _ _ hall hfetch _ =>
    obtain ⟨f', table, htake, hr, rfl⟩ := hall.of_pool hpool₁
    obtain ⟨-, rfl⟩ := hfetch.of_bare hs hbare
    obtain rfl := Except.ok.inj hr
    have he₁ : ({ k.faulting.residency with frames := table } : Residency).page? pid v = some e :=
      Residency.page?_frames.trans he
    refine ⟨⟨_, rfl⟩, ⟨⟨f, ?_⟩, fun q w hother => ?_, ?_⟩⟩
    · exact congrArg (Option.map _) (Residency.page?_link_self he₁)
    · refine congrArg (Option.map _) ((Residency.page?_link he₁).trans ?_)
      rw [if_neg hother]
      exact Residency.page?_frames
    · rw [withPage, Residency.frames_link, FrameTable.pool_put]
      exact congrArg List.length (FrameTable.takeOne_eq_some htake).2

/-- Serving a miss of such a page seats it. -/
theorem Served.seated {r : Except PagingError Unit} (hserved : Served c pins pid v k r k')
    (h : k.Sound pins none) (hp : k.residency.process? pid = some p) (hlive : p.exited = false)
    (hbare : p.executable = []) (habsent : k.state? pid v = some .absent)
    (hpool : k.residency.frames.pool.toList ≠ []) : Seated pid v k k' := by
  obtain ⟨e, he, hs⟩ := Option.map_eq_some_iff.1 habsent
  have hfault : ∀ {result k₁}, Resolved c pins pid v k result k₁ →
      (∃ m, result = .ok m) ∧ Seated pid v k k₁ := by
    intro result k₁ hres
    cases hres with
    | exited hdead => cases hlive.symm.trans (hdead p hp)
    | outside hp' _ hv =>
      cases hp.symm.trans hp'
      rw [Residency.page?_of_process hp (h.registered hp hlive), hv] at he
      cases he
    | there he' hs' =>
      cases he.symm.trans he'
      cases hs.symm.trans hs'
    | faulted hp' _ he' _ hin =>
      cases hp.symm.trans hp'
      cases he.symm.trans he'
      exact hin.seated he hs hbare hpool
  cases hserved with
  | failed hres =>
    obtain ⟨⟨m, hr⟩, -⟩ := hfault hres
    cases hr
  | served hres hslot =>
    obtain ⟨-, ⟨f, hseat⟩, hothers, hcount⟩ := hfault hres
    exact ⟨⟨f, Residency.states_absorb.trans hseat⟩,
      fun q w hother => Residency.states_absorb.trans (hothers q w hother), hcount⟩

/-! ## A process that fills the memory -/

/-- Process 1, which has no image, has its first `n` pages in frames and its other pages nowhere.
    There is a frame in the pool for each of these. -/
structure Filled (total n : Nat) (k : Kernel σ) : Prop where
  sound : k.Sound (fun _ => 0) none
  tlb : 0 < k.tlb.slots.length
  pageSize : k.memory.pageSize = 1
  images : k.images = []
  outline : k.residency.outline? 1 = some (Process.fresh [] (List.replicate total false)).outline
  seats : ∀ v < n, ∃ f, k.state? 1 v = some (.resident f)
  absent : ∀ v, n ≤ v → v < total → k.state? 1 v = some .absent
  pool : n + k.residency.frames.pool.toList.length = total

theorem Filled.process (h : Filled total n k) :
    ∃ p, k.residency.process? 1 = some p ∧ p.exited = false ∧ p.executable = [] ∧
      p.table.entries.toList.length = total := by
  obtain ⟨p, hp, hout⟩ := Option.map_eq_some_iff.1 h.outline
  rw [Process.outline_fresh] at hout
  have hlength := congrArg (fun o : Process.Outline => o.readOnly.length) hout
  simp only [Process.outline, List.length_map, List.length_replicate] at hlength
  exact ⟨p, hp, congrArg Process.Outline.exited hout, congrArg Process.Outline.executable hout,
    hlength⟩

/-! ## Its start -/

/-- Without sections a process is made of its stack, if this can be counted. -/
theorem ends_spawn_bare (hfit : k.config.stackPages < limit32) :
    Ends (fun _ => False) (spawn []).run k fun r k' => r = .ok k.residency.nextPid ∧
      k' = k.withProcess (.fresh [] (List.replicate k.config.stackPages false)) := by
  have hexe : k.executable [] = .ok [] := rfl
  have hsize : Executable.checkPageSize [] k.pageSize = .ok () := rfl
  have htiled : (Executable.checkContiguous []).run = .ok (.ok ()) := rfl
  have hpages : Executable.numPages [] = .ok 0 := rfl
  have hsum : addBelow limit32 0 k.config.stackPages = .ok (0 + k.config.stackPages) :=
    addBelow_eq_ok_iff.2 ⟨rfl, by rwa [Nat.zero_add]⟩
  have hmark : (Executable.flagPages [] (.create (0 + k.config.stackPages))).run =
      .ok (.ok (.ofFlags (List.replicate k.config.stackPages false))) := by
    rw [Nat.zero_add]
    rfl
  unfold spawn
  simp only [ends_bind, ends_get, ends_lift, ends_ofExcept, ends_ofAttempt, hexe, hsize, htiled,
    hpages, hsum, hmark, Checked.ends_ok, mapError_ok]
  refine ends_change.2 ⟨rfl, ?_⟩
  rw [withProcess, Process.fresh, List.length_replicate, Nat.zero_add]

/-- At first the process is nowhere, and all frames are in the pool. -/
theorem Fresh.filled {config : Config} (h : Fresh 1 config [] k) (hk : k.Sound (fun _ => 0) none)
    (htlb : 0 < k.tlb.slots.length) (hframes : config.physPages = total)
    (hstack : config.stackPages = total) (htotal : total < limit32) :
    Filled total 0 (k.withProcess (.fresh [] (List.replicate total false))) := by
  have hnext : k.residency.nextPid = 1 := by rw [Residency.nextPid, h.empty, List.length_nil]
  have hload : k.Loadable [] [] [] :=
    ⟨rfl, by simp, rfl, rfl, rfl, by simpa [h.config, hstack] using htotal⟩
  have hsound : (k.withProcess (.fresh [] (List.replicate total false))).Sound (fun _ => 0) none := by
    have hmade := (Spawned.made hload).sound hk
    rwa [List.nil_append, h.config, hstack] at hmade
  have hprocess : (k.withProcess (.fresh [] (List.replicate total false))).residency.process? 1 =
      some (.fresh [] (List.replicate total false)) := by
    rw [withProcess, Residency.process?_addProcess, if_pos hnext.symm]
  -- no page is in any frame
  have hnowhere : ∀ q w state, (k.withProcess (.fresh [] (List.replicate total false))).state? q w =
      some state → state = .absent := by
    intro q w state hstate
    obtain ⟨e, he, rfl⟩ := Option.map_eq_some_iff.1 hstate
    rcases Residency.page?_addProcess he with hold | ⟨-, -, hnew⟩
    · cases (Residency.page?_of_nil h.empty).symm.trans hold
    · rw [hnew]
  refine {
    sound := hsound, tlb := htlb, pageSize := h.pageSize
    images := congrArg (List.map Section.unloaded) h.sections
    outline := Residency.outline?_of_process hprocess
    seats := fun v hv => absurd hv (Nat.not_lt_zero v), absent := fun v _ hv => ?_, pool := ?_ }
  · rw [state?, Residency.page?_of_process hprocess rfl, Process.fresh, PageTable.find?_ofFlags,
      List.getElem?_replicate, if_pos hv]
    rfl
  · have hnum : k.memory.numFrames % limit32 = total := by
      rw [hk.physPages, h.config, hframes, Nat.mod_eq_of_lt htotal]
    have hmem : ∀ f, f ∈ (k.withProcess
        (.fresh [] (List.replicate total false))).residency.frames.pool.toList ↔
        f ∈ List.range total := by
      intro f
      have hin := hsound.mem_pool_iff_vacant (f := f)
      change _ ↔ f < k.memory.numFrames % limit32 ∧ _ at hin
      rw [hin, List.mem_range, hnum]
      refine and_iff_left ⟨rfl, fun q w hstate => ?_⟩
      cases hnowhere q w (.resident f) hstate
    have hall := (List.perm_ext_iff_of_nodup (FramePool.nodup_toList _) List.nodup_range).2 hmem
    rw [Nat.zero_add, hall.length_eq, List.length_range]

section Requests

variable [BackingStore σ]

/-- A miss of the next page fills one frame more. -/
theorem Filled.serve (h : Filled total n k) (hc : c.Holds fun _ => False) (hn : n < total) :
    Ends (fun _ => False) (handleMiss 1 n).run k fun _ k' => Filled total (n + 1) k' := by
  have hdivides : k.memory.pageSize < limit32 := by
    rw [h.pageSize]
    decide
  have htolerated : Tolerated c (fun _ => False) k :=
    ⟨hc, fun s hs => by simp [h.images] at hs, .inl hdivides⟩
  refine ends_handleMiss htolerated h.sound h.tlb fun r k' hserved => ?_
  obtain ⟨hsound, hkeeps⟩ := hserved.stays h.sound
  rw [h.pageSize, pageOf, Nat.div_one] at hserved
  obtain ⟨p, hp, hlive, hbare, -⟩ := h.process
  have hcount := h.pool
  have hpool : k.residency.frames.pool.toList ≠ [] := fun hempty => by
    rw [hempty, List.length_nil] at hcount
    omega
  obtain ⟨hseat, hothers, hleft⟩ :=
    hserved.seated h.sound hp hlive hbare (h.absent n (Nat.le_refl _) hn) hpool
  refine {
    sound := hsound, tlb := hkeeps.tlbSize ▸ h.tlb, pageSize := hkeeps.pageSize.trans h.pageSize
    images := hkeeps.images.trans h.images, outline := (hkeeps.outline 1).trans h.outline
    seats := fun v hv => ?_, absent := fun v hv hlt => ?_, pool := by omega }
  · rcases Nat.lt_succ_iff_lt_or_eq.1 hv with hlt | rfl
    · rw [hothers 1 v fun hself => Nat.ne_of_lt hlt hself.2]
      exact h.seats v hlt
    · exact hseat
  · rw [hothers 1 v fun hself => Nat.ne_of_gt hv hself.2]
    exact h.absent v (by omega) hlt

/-- Misses of `m` pages from page `n` on. -/
def visits (n m : Nat) : List Request :=
  (List.range' n m).map fun v => .process 1 (.handleMiss (.ofNat v))

/-- The induction is on the number of misses. -/
theorem Filled.run (h : Filled total n k) (hc : c.Holds fun _ => False) (htotal : total ≤ limit32)
    (hm : n + m ≤ total) :
    Ends (fun _ => False) (Kernel.run (visits n m)) k fun _ k' => Filled total (n + m) k' := by
  induction m generalizing n k with
  | zero => exact h
  | succ m ih =>
    obtain ⟨p, hp, -⟩ := h.process
    have hlt : n < limit32 := Nat.lt_of_lt_of_le (by omega) htotal
    have haddress : (UInt32.ofNat n).toNat = n := UInt32.toNat_ofNat_of_lt' hlt
    have hfirst : Ends (fun _ => False) (perform (.process 1 (.handleMiss (.ofNat n)))).run k
        fun _ k' => Filled total (n + 1) k' := by
      refine ends_bind.2 (ends_get.2 ?_)
      simp only [hp]
      refine ends_map.2 ?_
      rw [haddress]
      exact h.serve hc (by omega)
    rw [visits, List.range'_succ, List.map_cons]
    refine step_ends_bind.2 (hfirst.imp fun reply k₁ hnext => ?_)
    refine step_ends_bind.2 ((ih hnext (by omega)).imp fun _ k' hdone => ?_)
    rw [← Nat.add_assoc, Nat.add_right_comm]
    exact hdone

/-- A process without an image is made, and is nowhere yet. -/
theorem Fresh.spawns {config : Config} (h : Fresh 1 config [] k) (hk : k.Sound (fun _ => 0) none)
    (htlb : 0 < k.tlb.slots.length) (hframes : config.physPages = total)
    (hstack : config.stackPages = total) (htotal : total < limit32) :
    Ends (fun _ => False) (perform (.spawn [])).run k fun _ k' => Filled total 0 k' := by
  have hfilled := h.filled hk htlb hframes hstack htotal
  have hprocess : (k.withProcess
      (.fresh [] (List.replicate total false))).residency.process? k.residency.nextPid =
        some (.fresh [] (List.replicate total false)) := by
    rw [withProcess, Residency.process?_addProcess, if_pos rfl]
  have hpages : k.config.stackPages = total := h.config ▸ hstack
  refine ends_bind.2 ((ends_spawn_bare (hpages ▸ htotal)).imp ?_)
  rintro _ _ ⟨rfl, rfl⟩
  rw [hpages]
  refine ends_bind.2 (ends_bind.2 (ends_get.2 ?_))
  simp only [hprocess]
  exact hfilled

/-- On a machine of one-byte pages, with as many frames as a stack has pages, a process without an
    image comes to have all its pages in frames. -/
theorem exists_filled {config : Config} {store : σ} {picks : List Nat}
    (hc : c.Holds fun _ => False) (hpos : 0 < total) (htotal : total < limit32)
    (hframes : config.physPages = total) (hslots : config.tlbSize = 1)
    (hstack : config.stackPages = total) :
    ∃ k k' replies, boot 1 config store [] picks = .ok k ∧
      (Kernel.run (.spawn [] :: visits 0 total)).run k = .ok (replies, k') ∧
      Filled total total k' := by
  have hstarts : (boot 1 config store [] picks = .error .tooLarge ∧
      limit63 ≤ config.tlbSize * Mapping.recordSize) ∨ ∃ k, boot 1 config store [] picks = .ok k :=
    boot_unless_too_large (Nat.zero_le _) (hframes ▸ hpos) (hframes ▸ htotal) (hslots ▸ Nat.one_pos)
  have hsmall : ¬ limit63 ≤ config.tlbSize * Mapping.recordSize := by
    rw [hslots]
    decide
  obtain ⟨k, hboot⟩ := hstarts.resolve_left fun hlarge => hsmall hlarge.2
  obtain ⟨hsound, htlb⟩ := (Checked.ends_of_eq_ok hboot).1 ends_boot
  have hfresh := (Checked.ends_of_eq_ok hboot).1 ends_boot_fresh
  have hrun : Ends (fun _ => False) (Kernel.run (.spawn [] :: visits 0 total)) k
      fun _ k' => Filled total total k' := by
    refine step_ends_bind.2 ((hfresh.spawns hsound htlb hframes hstack htotal).imp ?_)
    intro reply k₁ hnext
    refine step_ends_bind.2 ((hnext.run hc (Nat.le_of_lt htotal) (by omega)).imp ?_)
    intro _ k' hdone
    rwa [Nat.zero_add] at hdone
  obtain ⟨replies, k', hall, hdone⟩ := ends_iff_eq_ok.1 hrun
  exact ⟨k, k', replies, hboot, hall, hdone⟩

/-! ## Its exit -/

omit [BackingStore σ] in
theorem Filled.uncounted (h : Filled total total k) (hmany : limit31 ≤ total) :
    ∃ p, k.residency.process? 1 = some p ∧ p.exited = false ∧ ¬ p.Releasable := by
  obtain ⟨p, hp, hlive, -, hlength⟩ := h.process
  refine ⟨p, hp, hlive, fun hcount => ?_⟩
  have hall : ∀ e ∈ p.table.entries.toList, e.isValid = true := by
    intro e he
    obtain ⟨v, hv, rfl⟩ := List.getElem_of_mem he
    obtain ⟨f, hseat⟩ := h.seats v (hlength ▸ hv)
    rw [state?, Residency.page?_of_process hp (h.sound.registered hp hlive), PageTable.find?_eq,
      List.getElem?_eq_getElem hv, Option.map_some] at hseat
    rw [PageEntry.isValid, PageEntry.frame, Option.some.inj hseat]
    rfl
  have hresident : p.residentPages = total := by
    rw [Process.residentPages, Row.countP_eq, List.countP_eq_length.2 hall, hlength]
  exact Nat.not_lt.2 (hresident ▸ hmany) hcount.resident

/-- From 2^31 pages on the process cannot exit any more. -/
theorem exists_uncounted {config : Config} {store : σ} {picks : List Nat}
    (hc : c.Holds fun _ => False) (hmany : limit31 ≤ total) (htotal : total < limit32)
    (hframes : config.physPages = total) (hslots : config.tlbSize = 1)
    (hstack : config.stackPages = total) :
    ∃ k k' p replies, boot 1 config store [] picks = .ok k ∧
      (Kernel.run (.spawn [] :: visits 0 total)).run k = .ok (replies, k') ∧
      k'.Sound (fun _ => 0) none ∧ k'.residency.process? 1 = some p ∧ p.exited = false ∧
      ¬ p.Releasable := by
  obtain ⟨k, k', replies, hboot, hrun, hfilled⟩ : ∃ k k' replies,
      boot 1 config store [] picks = .ok k ∧
        (Kernel.run (.spawn [] :: visits 0 total)).run k = .ok (replies, k') ∧
        Filled total total k' :=
    exists_filled hc (Nat.lt_of_lt_of_le (by decide) hmany) htotal hframes hslots hstack
  obtain ⟨p, hp, hlive, hcount⟩ := hfilled.uncounted hmany
  exact ⟨k, k', p, replies, hboot, hrun, hfilled.sound, hp, hlive, hcount⟩

end Requests

/-- A machine of 2^31 frames, with a stack of 2^31 pages. -/
def vast : Config := { physPages := limit31, tlbSize := 1, stackPages := limit31 }

theorem exists_uncounted_vast : ∃ (k k' : Kernel MemoryStore) (p : Process)
    (replies : List (Except PagingError Reply)), boot 1 vast {} [] [] = .ok k ∧
      (Kernel.run (.spawn [] :: visits 0 limit31)).run k = .ok (replies, k') ∧
      k'.Sound (fun _ => 0) none ∧ k'.residency.process? 1 = some p ∧ p.exited = false ∧
      ¬ p.Releasable :=
  exists_uncounted MemoryStore.isArray.fullReads (Nat.le_refl _) (by decide) rfl rfl rfl

/-- On a machine of 2^31 frames of one byte a process touches each of its 2^31 pages, and exits:
    the number of frames that it gives back is no signed 32-bit number. -/
theorem boot_run_overflows : ∃ k : Kernel MemoryStore, boot 1 vast {} [] [] = .ok k ∧
    (Kernel.run (.spawn [] :: visits 0 limit31 ++ [.process 1 .exit])).run k = .error .overflow := by
  obtain ⟨k, k', p, replies, hboot, hrun, hsound, hp, hlive, hcount⟩ := exists_uncounted_vast
  have hends : k'.EndsUncounted (.process 1 .exit) := ⟨1, p, .inl rfl, hp, hlive, hcount⟩
  refine ⟨k, hboot, ?_⟩
  rw [run_append, hrun]
  change ((Kernel.run [.process 1 .exit]).run k' >>= _) = _
  rw [run_cons, hends.stops hsound]
  rfl

/-- In a live process the exit stops half-way, and in one that has exited a miss stops the machine:
    the size of its pages, 2^32, is zero in 32 bits. -/
theorem Strained.exit_stops :
    (∃ (k : Kernel MemoryStore) (p : Process), k.Strained ∧ k.residency.process? 1 = some p ∧
      p.exited = false ∧ (exit 1).run.run k = .error .overflow) ∧
    ∃ (k : Kernel MemoryStore) (p : Process), k.Strained ∧ k.residency.process? 1 = some p ∧
      p.exited = true ∧ (handleMiss 1 0).run.run k = .error .divisionByZero := by
  constructor
  · obtain ⟨k, k', p, replies, hboot, hrun, hsound, hp, hlive, hcount⟩ := exists_uncounted_vast
    have hreach : k'.Reachable := (Reachable.ends_run (.fresh hboot)).of_run hrun
    exact ⟨k', p, hreach.strained, hp, hlive, hsound.exit_overflows hp hlive hcount⟩
  · have hrun : (boot limit32 { physPages := 1, tlbSize := 1, stackPages := 1 } ({} : MemoryStore)
        [] [] >>= fun k =>
          (fun r => ((r.2.residency.process? 1).map (·.exited), r.2.memory.pageSize)) <$>
            (Kernel.run [.spawn [], .process 1 .exit]).run k).toOption =
        some (some true, limit32) := by
      decide +kernel
    obtain ⟨k, hreach, hshows⟩ := Reachable.exists_of_run
      (f := fun k : Kernel MemoryStore =>
        ((k.residency.process? 1).map (·.exited), k.memory.pageSize)) hrun
    obtain ⟨hexited, hsize⟩ := Prod.mk.inj hshows
    obtain ⟨p, hp, hdead⟩ := Option.map_eq_some_iff.1 hexited
    obtain ⟨_, hsound, -⟩ := hreach.sound
    have hended : k.Ended 1 := by
      refine ⟨Residency.lt_nextPid hp, fun ho => ?_⟩
      rw [Residency.outline?_of_process hp] at ho
      cases ho
      exact hdead
    exact ⟨k, p, hreach.strained, hp, hdead,
      (hended.inert hsound).handleMiss_stops (Nat.le_of_eq hsize.symm) 0⟩

end DemandPaging.Kernel
