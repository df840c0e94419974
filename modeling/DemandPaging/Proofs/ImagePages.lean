/-
  The image pages of a process.

  A process is made of sections that tile its image, so that each page of the image has the flag
  of its section.  Long after that, a page that is still absent is loaded from a section that is
  looked up anew.  As long as the sections report the same positions the lookup cannot fail, and
  the index into the section is one that it has.

  * `Imaged`: the pages of a process that has just been made;
  * `FilledFrom`: where the content of an absent page comes from;
  * `spawn_tiled`: both, for all sections whose pages can be counted.
-/
import DemandPaging.Proofs.Reachable
import DemandPaging.Proofs.Tiling

namespace DemandPaging

/-! ## Loading an image page -/

/-- A section does not refuse an index that it has. -/
theorem Section.ends_load_of_lt {s : Section} {n index len : Nat} (hn : s.numPages = .ok n)
    (hindex : index < n) : Ends (fun _ => True) (load index len).run s fun r _ =>
      ∀ name i, r ≠ .error (.pageOutOfRange name i) := by
  unfold load
  rw [ends_bind, ends_get]
  dsimp only
  cases s.content with
  | data bytes =>
    simp only [ends_bind, ends_lift, hn, Checked.ends_ok, ends_ite, ends_throw, ends_set, ends_pure]
    refine ⟨fun hout => absurd hout (Nat.not_le.2 hindex), fun _ => ⟨?_, fun _ => ?_⟩⟩
    · intro _ name i
      rintro ⟨⟩
    · refine Checked.ends_of_forall fun page name i => ?_
      rintro ⟨⟩
  | reader m page =>
    dsimp only
    cases page index len with
    | none =>
      intro name i
      rintro ⟨⟩
    | some page =>
      intro name i
      rintro ⟨⟩

namespace Kernel

variable {σ : Type} {k k₁ k' : Kernel σ} {ids : List SectionId} {pid : Pid} {exe : Executable}
  {counts : List Nat} {m : Nat}

theorem executable_eq_ok_iff :
    k.executable ids = .ok exe ↔ ids.mapM (k.sections[·]?) = some exe := by
  unfold executable
  split
  · next hids => simp [hids]
  · next hids => simp [hids, Violation.stop]

/-- The pages of a process that has just been made of the sections `exe`. -/
structure Imaged (k k₁ : Kernel σ) (ids : List SectionId) (pid : Pid) (exe : Executable)
    (imagePages : Nat) : Prop where
  made : pid = k.residency.nextPid ∧ ∃ p, k₁.residency.process? pid = some p ∧
    p.executable = ids ∧ p.numPages = imagePages + k.config.stackPages
  /-- A page of the image has the flag of its section. -/
  image : ∀ vpn < imagePages, ∃ s, exe.sectionFor vpn = .ok (some s) ∧
    k₁.residency.page? pid vpn = some { vpn, readOnly := s.readOnly }
  /-- A page of the stack can be written. -/
  stack : ∀ vpn, imagePages ≤ vpn → vpn < imagePages + k.config.stackPages →
    k₁.residency.page? pid vpn = some { vpn, readOnly := false }
  beyond : ∀ vpn, imagePages + k.config.stackPages ≤ vpn → k₁.residency.page? pid vpn = none

variable [BackingStore σ]

/-- The content of the page of `entry` comes from the section `s`, the place of which in the
    executable is `i`, from an index that it has. -/
structure FilledFrom (k : Kernel σ) (p : Process) (exe : Executable) (entry : PageEntry)
    (i : Nat) (s : Section) (n : Nat) : Prop where
  lies : exe.HasPage entry.vpn i s n
  loads : ∃ sectionId, p.executable[i]? = some sectionId ∧ k.sections[sectionId]? = some s ∧
    ∀ frame, (fill p entry frame).run.run k = (do
      let page ← onSection sectionId (Section.load (entry.vpn - s.firstVpn) k.pageSize)
      writing (·.writeFrame frame page)).run.run k
  /-- There is no want of a section, nor of a page in it. -/
  served : ∀ frame r k', (fill p entry frame).run.run k = .ok (r, k') →
    r ≠ .error (.sectionMissing entry.vpn) ∧ ∀ name i, r ≠ .error (.image (.pageOutOfRange name i))

/-- A section that has the page of an absent entry is the one that it is filled from. -/
theorem filledFrom {p : Process} {entry : PageEntry} {i n : Nat} {s : Section}
    (hexe : k.executable p.executable = .ok exe) (hpages : exe.numPages = .ok m)
    (habsent : entry.state = .absent) (hlt : entry.vpn < m) (hs : exe.HasPage entry.vpn i s n) :
    k.FilledFrom p exe entry i s n := by
  obtain ⟨sectionId, hid, hsection⟩ := exists_of_mapM (executable_eq_ok_iff.1 hexe) hs.section_eq
  have hfetch : (fetch p entry).run.run k =
      (onSection sectionId (Section.load (entry.vpn - s.firstVpn) k.pageSize)).run.run k := by
    have hget : (get : KernelM σ (Kernel σ)).run.run k = .ok (.ok k, k) := rfl
    unfold fetch
    rw [run_bind_of_ok hget]
    simp only [habsent]
    rw [hexe, run_bind_of_ok rfl, hpages, run_bind_of_ok rfl, if_pos hlt, loadImagePage,
      run_bind_of_ok hget, hexe, run_bind_of_ok rfl, hs.place, run_bind_of_ok rfl]
    simp only [Option.bind_some, hid]
    rw [onSection, onSection, run_bind_of_ok hget, run_bind_of_ok hget]
    simp only [hsection]
    rfl
  have hfill : ∀ frame, (fill p entry frame).run.run k = (do
      let page ← onSection sectionId (Section.load (entry.vpn - s.firstVpn) k.pageSize)
      writing (·.writeFrame frame page)).run.run k := fun frame => run_bind_of_eq hfetch
  refine ⟨hs, ⟨sectionId, hid, hsection, hfill⟩, ?_⟩
  intro frame r k' hrun
  rw [hfill] at hrun
  refine Ends.of_run (V := fun _ => True) (Q := fun r _ => r ≠ .error (.sectionMissing entry.vpn) ∧
    ∀ name i, r ≠ .error (.image (.pageOutOfRange name i))) ?_ hrun
  unfold onSection
  simp only [ends_bind, ends_get, hsection, ends_within]
  refine (Section.ends_load_of_lt hs.pages hs.index_lt).imp fun r s' hr => ?_
  cases r with
  | error e =>
    refine ⟨?_, fun name i => ?_⟩
    · rintro ⟨⟩
    · intro heq
      cases heq
      exact hr name i rfl
  | ok page =>
    rw [mapError_ok]
    simp only [writing, reading, ends_bind, ends_get, ends_ofAttempt, ends_modify]
    refine Checked.ends_of_forall fun written => ?_
    cases written with
    | error e =>
      refine ⟨?_, fun name i => ?_⟩
      · rintro ⟨⟩
      · rintro ⟨⟩
    | ok memory =>
      refine ⟨?_, fun name i => ?_⟩
      · rintro ⟨⟩
      · rintro ⟨⟩

/-- Later on, the image pages of a process that are still absent are filled from the sections, if
    these report the positions they had. -/
def KeepsImage (σ : Type) [BackingStore σ] (exe : Executable) (counts : List Nat) : Prop :=
  ∀ (k : Kernel σ) (p : Process) (exe' : Executable) (entry : PageEntry),
    k.executable p.executable = .ok exe' →
    exe'.map (·.firstVpn) = exe.map (·.firstVpn) → exe'.Counts counts →
    entry.state = .absent → entry.vpn < counts.sum →
    ∃ i s n, k.FilledFrom p exe' entry i s n

theorem keepsImage (hc : exe.Counts counts) (hlt : counts.sum < limit32)
    (htiled : exe.checkContiguous.run = .ok (.ok ())) : KeepsImage σ exe counts := by
  intro k p exe' entry hexe hfirst hc' habsent hvpn
  have htiling := Executable.tiling hc' hlt
  have htiled' : exe'.checkContiguous.run = .ok (.ok ()) := by
    refine htiling.accepts.2 fun i s hs => ?_
    have hs₀ : (exe.map (·.firstVpn))[i]? = some s.firstVpn := by
      rw [← hfirst, List.getElem?_map, hs, Option.map_some]
    rw [List.getElem?_map] at hs₀
    obtain ⟨s₀, hs₀, heq⟩ := Option.map_eq_some_iff.1 hs₀
    rw [← heq]
    exact (Executable.tiling hc hlt).accepts.1 htiled i s₀ hs₀
  obtain ⟨i, s, n, hs⟩ := htiling.inside htiled' entry.vpn hvpn
  exact ⟨i, s, n, filledFrom hexe htiling.pages habsent hvpn hs⟩

omit [BackingStore σ] in
theorem process?_withProcess {p : Process} :
    (k.withProcess p).residency.process? k.residency.nextPid = some p := by
  rw [withProcess, Residency.process?_addProcess, if_pos rfl]

omit [BackingStore σ] in
theorem page?_withProcess {flags : List Bool} {vpn : Vpn} :
    (k.withProcess (.fresh ids flags)).residency.page? k.residency.nextPid vpn =
      flags[vpn]?.map fun b => { vpn, readOnly := b } := by
  rw [Residency.page?_of_process process?_withProcess rfl, Process.fresh, PageTable.find?_ofFlags]

omit [BackingStore σ] in
theorem Loadable.imaged {flags : List Bool} (hload : k.Loadable ids flags exe) :
    k.Imaged (k.withProcess (.fresh ids (flags ++ List.replicate k.config.stackPages false))) ids
      k.residency.nextPid exe flags.length := by
  refine ⟨⟨rfl, _, process?_withProcess, rfl, by simp [Process.fresh]⟩, ?_, ?_, ?_⟩
  · intro vpn hvpn
    have hflag : flags[vpn]? = some flags[vpn] := List.getElem?_eq_getElem hvpn
    obtain ⟨j, s, hpos, hs, hro, -⟩ :=
      Executable.position?_of_contiguous hload.tiled hload.flagged hflag
    rw [Nat.zero_add] at hpos
    refine ⟨s, ?_, ?_⟩
    · rw [Executable.sectionFor, hpos]
      exact congrArg Except.ok hs
    · rw [page?_withProcess, List.getElem?_append_left hvpn, hflag, hro, Option.map_some]
  · intro vpn hle hvpn
    rw [page?_withProcess, List.getElem?_append_right hle, List.getElem?_replicate,
      if_pos (by omega), Option.map_some]
  · intro vpn hle
    rw [page?_withProcess, List.getElem?_eq_none (by simpa using hle), Option.map_none]

/-- Sections whose pages can be counted are checked, counted, searched and flagged alike: a page
    of the image is in exactly one of them, also when a process is made of them and when a page
    of this process is filled. -/
theorem spawn_tiled (hc : exe.Counts counts) (hlt : counts.sum < limit32) :
    exe.Tiling counts ∧ ∀ (σ : Type) [BackingStore σ] (k k₁ : Kernel σ) ids pid,
      k.executable ids = .ok exe → (spawn ids).run.run k = .ok (.ok pid, k₁) →
      k.Imaged k₁ ids pid exe counts.sum ∧ KeepsImage σ exe counts := by
  have htiling := Executable.tiling hc hlt
  refine ⟨htiling, ?_⟩
  intro σ _ k k₁ ids pid hexe hrun
  have hspawned : Spawned ids k (.ok pid) k₁ := ends_spawn.of_run hrun
  cases hspawned with
  | @made flags exe' hload =>
    obtain rfl : exe = exe' := Except.ok.inj (hexe.symm.trans hload.executable)
    have hlength : counts.sum = flags.length :=
      Except.ok.inj (htiling.pages.symm.trans hload.pages)
    refine ⟨?_, keepsImage hc hlt hload.tiled⟩
    rw [hlength]
    exact hload.imaged

/-- Two pages that are read from elsewhere, an empty section, and one page in memory. -/
def unevenImage : Executable :=
  [{ name := "text", firstVpn := 0, readOnly := true, pageSize := 4
     content := .reader 2 fun _ len => some (Vector.replicate len 7) },
    { name := "none", firstVpn := 2, readOnly := true, pageSize := 4
      content := .data (.ofList []) },
    { name := "data", firstVpn := 2, readOnly := false, pageSize := 4
      content := .data (.ofList [1, 2, 3]) }]

/-- The page behind the empty section is one of the section that follows. -/
theorem spawn_tiled_unevenImage : ∃ k k₁ : Kernel MemoryStore,
    unevenImage.Counts [2, 0, 1] ∧ [2, 0, 1].sum < limit32 ∧ unevenImage.Tiling [2, 0, 1] ∧
      k.executable [0, 1, 2] = .ok unevenImage ∧
      (spawn [0, 1, 2]).run.run k = .ok (.ok 1, k₁) ∧ k.Imaged k₁ [0, 1, 2] 1 unevenImage 3 ∧
      KeepsImage MemoryStore unevenImage [2, 0, 1] ∧
      k₁.residency.page? 1 1 = some { vpn := 1, readOnly := true } ∧
      k₁.residency.page? 1 2 = some { vpn := 2 } := by
  have hrun : (boot 4 { physPages := 1, tlbSize := 1, stackPages := 1 } ({} : MemoryStore)
      unevenImage [] >>= fun k => (spawn [0, 1, 2]).run.run k >>= fun r =>
        .ok (r.1.toOption, r.2.residency.page? 1 1, r.2.residency.page? 1 2)).toOption =
      some (some 1, some { vpn := 1, readOnly := true }, some { vpn := 2 }) := by
    decide +kernel
  obtain ⟨k, hboot, hrest⟩ := Checked.exists_of_toOption_bind hrun
  obtain ⟨⟨r, k₁⟩, hspawn, hshown⟩ := Checked.exists_of_toOption_bind hrest
  obtain ⟨hr, hone, htwo⟩ : r.toOption = some 1 ∧ _ ∧ _ := by
    simpa [Except.toOption] using hshown
  have hcounts : unevenImage.Counts [2, 0, 1] := rfl
  have hlt : [2, 0, 1].sum < limit32 := by decide
  have hfresh := (Checked.ends_of_eq_ok hboot).1 ends_boot_fresh
  have hexe : k.executable [0, 1, 2] = .ok unevenImage := by
    rw [executable_eq_ok_iff, hfresh.sections]
    rfl
  obtain rfl := toOption_eq_some.1 hr
  obtain ⟨htiling, hspawned⟩ := spawn_tiled hcounts hlt
  obtain ⟨himaged, hkeeps⟩ := hspawned MemoryStore k k₁ [0, 1, 2] 1 hexe hspawn
  exact ⟨k, k₁, hcounts, hlt, htiling, hexe, hspawn, himaged, hkeeps, hone, htwo⟩

end Kernel

end DemandPaging
