/-
  Which executables a process is made of.

  Sections with pages of another size are refused, and so are sections that do not tile the
  image.  What is left is counted in 32 bits: the check keeps a total of the pages so far, and
  the stack comes on top.  Neither sum is guarded, so that sections which are placed right and
  run over stop the machine where sections placed wrong are refused (`Overruns`).

  * `spawn_admission` lists how making a process ends, by the sections alone;
  * `spawn_admitted` says that this is the only way to stop it, and that a refusal leaves the
    kernel as it was;
  * `spawn_overrun`: two executables that stop it.
-/
import DemandPaging.Proofs.ImagePages

namespace DemandPaging.Kernel

variable {σ : Type} {k k' : Kernel σ} {ids : List SectionId} {exe : Executable}
  {counts : List Nat}

/-- The pages of all sections have the size of the machine's. -/
def Uniform (k : Kernel σ) (exe : Executable) : Prop := ∀ s ∈ exe, s.pageSize = k.pageSize

/-- The sections are placed right as far as 32 bits count pages, and run over them, be it with
    the stack. -/
structure Overruns (k : Kernel σ) (exe : Executable) (counts : List Nat) : Prop where
  uniform : k.Uniform exe
  placed : ∀ (i : Nat) s, exe[i]? = some s → (counts.take i).sum < limit32 →
    s.firstVpn = (counts.take i).sum
  beyond : limit32 ≤ counts.sum + k.config.stackPages

/-- How making a process of the sections `exe` with these numbers of pages ends. -/
inductive Admission (k : Kernel σ) (ids : List SectionId) (exe : Executable) (counts : List Nat) :
    Checked (Except PagingError Pid × Kernel σ) → Prop where
  | otherPages {e} (hunit : ¬ k.Uniform exe) :
    Admission k ids exe counts (.ok (.error (.image e), k))
  | fragmented {i s} (hs : exe[i]? = some s) (hne : s.firstVpn ≠ (counts.take i).sum)
    (hlt : (counts.take i).sum < limit32) : Admission k ids exe counts
      (.ok (.error (.fragmentedExecutable s.name s.firstVpn (counts.take i).sum), k))
  | overrun (h : k.Overruns exe counts) : Admission k ids exe counts (.error .overflow)
  | made {flags} (hload : k.Loadable ids flags exe) (hroom : counts.sum = flags.length) :
    Admission k ids exe counts (.ok (.ok k.residency.nextPid, k.withProcess
      (.fresh ids (flags ++ List.replicate k.config.stackPages false))))

theorem uniform_of_check (h : exe.checkPageSize k.pageSize = .ok ()) : k.Uniform exe :=
  pageSize_of_check h

theorem not_uniform_of_check {e : SectionError} (h : exe.checkPageSize k.pageSize = .error e) :
    ¬ k.Uniform exe := by
  intro hunit
  unfold Executable.checkPageSize at h
  split at h
  · cases h
  · next s hs =>
    have hbad := List.find?_some hs
    rw [decide_eq_true_eq] at hbad
    exact hbad (hunit s (List.mem_of_find?_eq_some hs))

/-- How making a process of sections with these numbers of pages ends. -/
theorem spawn_admission (hexe : k.executable ids = .ok exe)
    (hc : k.Uniform exe → exe.Counts counts) :
    Admission k ids exe counts ((spawn ids).run.run k) := by
  have hget : (get : KernelM σ (Kernel σ)).run.run k = .ok (.ok k, k) := rfl
  unfold spawn
  rw [run_bind_of_ok hget, hexe, run_bind_of_ok rfl]
  cases hsize : exe.checkPageSize k.pageSize with
  | error e =>
    rw [run_bind_of_error rfl]
    exact .otherPages (not_uniform_of_check hsize)
  | ok _ =>
    have hunit := uniform_of_check hsize
    have hends := (hc hunit).checkEnds
    generalize hr : exe.checkContiguous.run = r at hends
    have hcheck : (Action.ofAttempt id exe.checkContiguous : KernelM σ Unit).run.run k =
        r >>= fun r => .ok (r.mapError id, k) := by
      rw [run_ofAttempt, hr]
    rw [run_bind_of_ok rfl]
    cases hends with
    | passes hp hlt =>
      have htiled := Executable.placedTo_zero.1 hp
      have hpages : exe.numPages = .ok counts.sum := (Executable.tiling (hc hunit) hlt).pages
      rw [run_bind_of_ok hcheck, hpages, run_bind_of_ok rfl, addBelow]
      by_cases hroom : counts.sum + k.config.stackPages < limit32
      · obtain ⟨flags, hflags, hlength, hmark⟩ :=
          Executable.flagPages_create k.config.stackPages hr hpages
        have hmarked : (Action.ofAttempt id (exe.flagPages
            (.create (counts.sum + k.config.stackPages))) : KernelM σ PageTable).run.run k =
              .ok (.ok (.ofFlags (flags ++ List.replicate k.config.stackPages false)), k) := by
          rw [run_ofAttempt, hmark]
          rfl
        rw [if_pos hroom, run_bind_of_ok rfl, run_bind_of_ok hmarked]
        have hload : k.Loadable ids flags exe :=
          ⟨hexe, hunit, hr, by rw [hpages, hlength], hflags, hlength ▸ hroom⟩
        have hmade := Admission.made hload hlength
        rw [withProcess, Process.fresh, List.length_append, List.length_replicate, ← hlength] at hmade
        exact hmade
      · rw [if_neg hroom]
        refine .overrun ⟨hunit, fun i s hs _ => ?_, Nat.le_of_not_lt hroom⟩
        exact htiled i s (List.getElem?_eq_some_iff.1 hs).1 hs
    | reports hp hs hne hlt =>
      rw [run_bind_of_error hcheck]
      exact .fragmented hs hne hlt
    | @overruns m hp hle =>
      rw [run_bind_of_stop hcheck]
      refine .overrun ⟨hunit, fun i s hs hlt => ?_, ?_⟩
      · have him : i < m := by
          rcases Nat.lt_or_ge i m with him | him
          · exact him
          · exact absurd (Nat.lt_of_le_of_lt (Executable.sum_take_mono him) hlt) (Nat.not_lt.2 hle)
        exact Executable.placedTo_zero.1 hp i s him hs
      · have hsum : (counts.take m).sum ≤ counts.sum := Executable.sum_take_le
        omega

/-- What becomes of an attempt to make a process of the sections `exe`. -/
structure Admitted (k : Kernel σ) (ids : List SectionId) (exe : Executable) (counts : List Nat) :
    Prop where
  /-- The machine stops just when the pages run over 32 bits before anything else is wrong. -/
  stops : (spawn ids).run.run k = .error .overflow ↔ k.Overruns exe counts
  /-- Else there is an answer. -/
  returns : ¬ k.Overruns exe counts → ∃ r k', (spawn ids).run.run k = .ok (r, k')
  /-- A refusal changes nothing. -/
  refuses : ∀ e k', (spawn ids).run.run k = .ok (.error e, k') → k' = k
  /-- A process is made of sections that tile the image and have room for the stack. -/
  makes : (∃ pid k', (spawn ids).run.run k = .ok (.ok pid, k')) ↔ k.Uniform exe ∧
    (∀ (i : Nat) s, exe[i]? = some s → s.firstVpn = (counts.take i).sum) ∧
      counts.sum + k.config.stackPages < limit32

/-- Making a process is an answered request unless sections of the right kind, placed right, run
    over the 32 bits that pages are counted with. -/
theorem spawn_admitted (hexe : k.executable ids = .ok exe)
    (hc : k.Uniform exe → exe.Counts counts) : k.Admitted ids exe counts := by
  have hends := spawn_admission hexe hc
  constructor
  case stops =>
    constructor
    · intro hrun
      rw [hrun] at hends
      cases hends with
      | overrun h => exact h
    · intro h
      generalize (spawn ids).run.run k = r at hends
      cases hends with
      | otherPages hunit => exact absurd h.uniform hunit
      | fragmented hs hne hlt => exact absurd (h.placed _ _ hs hlt) hne
      | overrun => rfl
      | made hload hroom =>
        have hbeyond := h.beyond
        have hfits := hload.room
        omega
  case returns =>
    intro h
    generalize (spawn ids).run.run k = r at hends
    cases hends with
    | overrun hover => exact absurd hover h
    | otherPages | fragmented | made => exact ⟨_, _, rfl⟩
  case refuses =>
    intro e k' hrun
    rw [hrun] at hends
    cases hends <;> rfl
  case makes =>
    constructor
    · rintro ⟨pid, k', hrun⟩
      rw [hrun] at hends
      cases hends with
      | made hload hroom =>
        have hfits := hload.room
        have hlt : counts.sum < limit32 := by omega
        have htiling := Executable.tiling (hc hload.pageSize) hlt
        exact ⟨hload.pageSize, htiling.accepts.1 hload.tiled, by omega⟩
    · rintro ⟨hunit, hplaced, hroom⟩
      generalize (spawn ids).run.run k = r at hends
      cases hends with
      | otherPages h => exact absurd hunit h
      | fragmented hs hne => exact absurd (hplaced _ _ hs) hne
      | overrun h => exact absurd h.beyond (Nat.not_le.2 hroom)
      | made => exact ⟨_, _, rfl⟩

/-- All pages that 32 bits count but one, and one page more, which starts at `firstVpn`. -/
def vastImage (firstVpn : Vpn) : Executable :=
  [{ name := "vast", firstVpn := 0, readOnly := true, pageSize := 4
     content := .reader 4294967295 fun _ _ => none },
    { name := "last", firstVpn, readOnly := false, pageSize := 4
      content := .reader 1 fun _ _ => none }]

/-- Sections with as many pages as 32 bits count are refused if they leave a hole. -/
theorem spawn_admitted_vastImage : ∃ k : Kernel MemoryStore,
    k.executable [0, 1] = .ok (vastImage 5) ∧ (vastImage 5).Counts [4294967295, 1] ∧
      k.Admitted [0, 1] (vastImage 5) [4294967295, 1] ∧ ¬ k.Overruns (vastImage 5) [4294967295, 1] ∧
      (spawn [0, 1]).run.run k = .ok (.error (.fragmentedExecutable "last" 5 4294967295), k) := by
  have hrun : (boot 4 { physPages := 1, tlbSize := 1, stackPages := 1 } ({} : MemoryStore)
      (vastImage 5) [] >>= fun k => (spawn [0, 1]).run.run k >>= fun r =>
        .ok (failure? r.1)).toOption = some (some (.fragmentedExecutable "last" 5 4294967295)) := by
    decide +kernel
  obtain ⟨k, hboot, hrest⟩ := Checked.exists_of_toOption_bind hrun
  obtain ⟨⟨r, k'⟩, hspawn, hshown⟩ := Checked.exists_of_toOption_bind hrest
  obtain rfl := failure?_eq_some.1 (Option.some.inj hshown)
  have hfresh := (Checked.ends_of_eq_ok hboot).1 ends_boot_fresh
  have hexe : k.executable [0, 1] = .ok (vastImage 5) := by
    rw [executable_eq_ok_iff, hfresh.sections]
    rfl
  have hcounts : (vastImage 5).Counts [4294967295, 1] := rfl
  have hadmitted := spawn_admitted hexe fun _ => hcounts
  refine ⟨k, hexe, hcounts, hadmitted, ?_, ?_⟩
  · intro hover
    rw [hadmitted.stops.2 hover] at hspawn
    cases hspawn
  · rw [hspawn, hadmitted.refuses _ k' hspawn]

/-- Too large a stack stops the machine, and so does too large an image. -/
theorem spawn_overrun :
    (∃ k : Kernel MemoryStore,
      boot 4 { physPages := 1, tlbSize := 1, stackPages := 4294967295 } {}
        [{ name := "text", firstVpn := 0, readOnly := true, pageSize := 4
           content := .data (.ofList [0]) }] [] = .ok k ∧
      (spawn [0]).run.run k = .error .overflow) ∧
    ∃ k : Kernel MemoryStore,
      boot 4 { physPages := 1, tlbSize := 1, stackPages := 0 } {}
        (vastImage 4294967295) [] = .ok k ∧
      (spawn [0, 1]).run.run k = .error .overflow := by
  have hstack : (boot 4 { physPages := 1, tlbSize := 1, stackPages := 4294967295 }
      ({} : MemoryStore) [{ name := "text", firstVpn := 0, readOnly := true, pageSize := 4
                            content := .data (.ofList [0]) }] [] >>= fun k =>
        .ok (failure? ((spawn [0]).run.run k))).toOption = some (some .overflow) := by
    decide +kernel
  have himage : (boot 4 { physPages := 1, tlbSize := 1, stackPages := 0 } ({} : MemoryStore)
      (vastImage 4294967295) [] >>= fun k =>
        .ok (failure? ((spawn [0, 1]).run.run k))).toOption = some (some .overflow) := by
    decide +kernel
  constructor
  · obtain ⟨k, hboot, hshown⟩ := Checked.exists_of_toOption_bind hstack
    exact ⟨k, hboot, failure?_eq_some.1 (Option.some.inj hshown)⟩
  · obtain ⟨k, hboot, hshown⟩ := Checked.exists_of_toOption_bind himage
    exact ⟨k, hboot, failure?_eq_some.1 (Option.some.inj hshown)⟩

end DemandPaging.Kernel
