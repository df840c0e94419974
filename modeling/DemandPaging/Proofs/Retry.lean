/-
  An instruction that misses the TLB is retried once.

  `Retried` is an instruction without a bound on its retries: the address is translated, a miss
  is served, and the translation starts again.  A miss that has been served leaves a slot of the
  TLB behind that has the page (`Finds`), so that the next translation does not miss; the bound
  that `locate` is given is never what ends it.
-/
import DemandPaging.Proofs.Reachable

namespace DemandPaging

namespace Kernel

variable {σ : Type} {V : Violation → Prop} {pins : Frame → Nat} {c : Conduct σ}
  {k k' k₁ k₂ : Kernel σ} {pid : Pid} {vaddr misses n : Nat} {write : Bool}
  {r : Except PagingError Nat}

/-! ## What a served miss leaves behind -/

/-- A slot of the TLB has page `v` of process `pid`, and leads to the frame that the page is in. -/
def Finds (k : Kernel σ) (pid : Pid) (v : Vpn) : Prop :=
  ∃ i slot e, k.tlb.lookup pid v = some i ∧ k.tlb.slots[i]? = some slot ∧
    slot.mapping.valid = true ∧ slot.mapping.vpn = v ∧ slot.owner = some pid ∧
    k.residency.page? pid v = some e ∧ e.state = .resident slot.mapping.ppn ∧
    slot.mapping.readOnly = e.readOnly

/-- What the lookup finds is a mapping of the page. -/
theorem Sound.finds {v : Vpn} (h : k.Sound pins none) (hsome : k.tlb.lookup pid v ≠ none) :
    k.Finds pid v := by
  obtain ⟨i, hi⟩ := Option.ne_none_iff_exists'.1 hsome
  obtain ⟨slot, hslot, hv, rfl, ho⟩ := Tlb.lookup_eq_some hi
  obtain ⟨e, he, hs, hro, -⟩ := h.tlb.backs (List.mem_of_getElem? hslot) hv ho
  exact ⟨i, slot, e, hi, hslot, hv, rfl, ho, he, hs, hro⟩

/-- Where the page is found the address is translated, or the write refused. -/
theorem Finds.run_translate (h : k.Finds pid (pageOf k.pageSize vaddr)) (hk : k.Sound pins none)
    (hdiv : k.memory.pageSize < limit32) (write : Bool) :
    (∃ address k', (translate pid vaddr write).run.run k = .ok (.ok (some address), k')) ∨
      ∃ error k', (translate pid vaddr write).run.run k = .ok (.error error, k') := by
  obtain ⟨i, _, _, hi, -⟩ := h
  have hends : Ends (fun _ => False) (translate pid vaddr write).run k fun r _ => r ≠ .ok none :=
    ends_translate hk (.inl hdiv) fun r k' htr => by
      cases htr with
      | miss hnone => exact absurd (hi.symm.trans hnone) (by simp)
      | refused => simp
      | hit => simp
  obtain ⟨r, k', hrun, hr⟩ := ends_iff_eq_ok.1 hends
  rcases r with error | address
  · exact .inr ⟨error, k', hrun⟩
  · obtain ⟨address, rfl⟩ := Option.ne_none_iff_exists'.1 fun hnone => hr (congrArg _ hnone)
    exact .inl ⟨address, k', hrun⟩

/-- A miss changes nothing. -/
theorem eq_of_miss (h : k.Sound pins none)
    (hrun : (translate pid vaddr write).run.run k = .ok (.ok none, k')) : k' = k := by
  have hends : Ends (fun _ => True) (translate pid vaddr write).run k fun r k' =>
      r = .ok none → k' = k := ends_translate h (.inr trivial) fun r k' htr => by
    cases htr with
    | miss => exact fun _ => rfl
    | refused => rintro ⟨⟩
    | hit => rintro ⟨⟩
  exact hends.of_run hrun rfl

section Instructions

variable [BackingStore σ]

/-- After a miss has been served the page is found. -/
theorem Sound.finds_of_handleMiss (h : k.Sound pins none) (hsize : 0 < k.tlb.slots.length)
    (hrun : (handleMiss pid vaddr).run.run k = .ok (.ok (), k')) :
    k'.Sound pins none ∧ k'.memory.pageSize < limit32 ∧ k'.Finds pid (pageOf k'.pageSize vaddr) := by
  have hdiv := h.pageSize_lt_of_handleMiss hrun
  have hends : Ends (fun _ => True) (handleMiss pid vaddr).run k fun r k' => r = .ok () →
      k'.Sound pins none ∧ k'.memory.pageSize < limit32 ∧
        k'.Finds pid (pageOf k'.pageSize vaddr) := by
    refine ends_handleMiss .any h hsize fun r k' hserved => ?_
    rintro rfl
    have hstays := hserved.stays h
    have hps : k'.pageSize = k.memory.pageSize := hstays.keeps.pageSize
    exact ⟨hstays.sound, hstays.keeps.pageSize ▸ hdiv, hstays.sound.finds (hps ▸ hserved.lookup h)⟩
  exact hends.of_run hrun rfl

/-! ## The loop -/

/-- The address is translated, and again after each miss that has been served, until a
    translation does not miss or a miss cannot be served: the misses, and how it ends. -/
inductive Retried (pid : Pid) (vaddr : Nat) (write : Bool) :
    (misses : Nat) → Kernel σ → Except PagingError Nat → Kernel σ → Prop where
  | reached {k k' : Kernel σ} {address : Nat}
    (htr : (translate pid vaddr write).run.run k = .ok (.ok (some address), k')) :
    Retried pid vaddr write 0 k (.ok address) k'
  | refused {k k' : Kernel σ} {error : PagingError}
    (htr : (translate pid vaddr write).run.run k = .ok (.error error, k')) :
    Retried pid vaddr write 0 k (.error error) k'
  | failed {k k' k₁ : Kernel σ} {error : PagingError}
    (htr : (translate pid vaddr write).run.run k = .ok (.ok none, k₁))
    (hmiss : (handleMiss pid vaddr).run.run k₁ = .ok (.error error, k')) :
    Retried pid vaddr write 1 k (.error error) k'
  | again {k k' k₁ k₂ : Kernel σ} {misses : Nat} {r : Except PagingError Nat}
    (htr : (translate pid vaddr write).run.run k = .ok (.ok none, k₁))
    (hmiss : (handleMiss pid vaddr).run.run k₁ = .ok (.ok (), k₂))
    (hrest : Retried pid vaddr write misses k₂ r k') : Retried pid vaddr write (misses + 1) k r k'

/-- Where the page is found nothing is retried. -/
theorem Retried.eq_zero (h : Retried pid vaddr write misses k r k') (hk : k.Sound pins none)
    (hdiv : k.memory.pageSize < limit32)
    (hfinds : k.Finds pid (pageOf k.pageSize vaddr)) : misses = 0 := by
  have hhit : ∀ k₁, (translate pid vaddr write).run.run k ≠ .ok (.ok none, k₁) := by
    intro k₁ hmiss
    rcases hfinds.run_translate hk hdiv write with ⟨_, _, hrun⟩ | ⟨_, _, hrun⟩ <;>
      exact absurd (hrun.symm.trans hmiss) (by simp)
  cases h with
  | reached | refused => rfl
  | failed htr => exact absurd htr (hhit _)
  | again htr => exact absurd htr (hhit _)

/-- At most one miss is served. -/
theorem Retried.le_one (h : Retried pid vaddr write misses k r k') (hk : k.Sound pins none)
    (hsize : 0 < k.tlb.slots.length) : misses ≤ 1 := by
  cases h with
  | reached | refused | failed => omega
  | again htr hmiss hrest =>
    obtain rfl := eq_of_miss hk htr
    obtain ⟨hserved, hdiv, hfinds⟩ := hk.finds_of_handleMiss hsize hmiss
    exact Nat.le_of_eq (by rw [hrest.eq_zero hserved hdiv hfinds])

/-- An instruction with a bound is the loop, as far as the bound lets it go.  The induction is on
    the bound. -/
theorem ends_locate_retried :
    Ends (fun _ => True) (locate pid vaddr write n).run k fun r k' =>
      ∃ misses ≤ n, Retried pid vaddr write misses k r k' := by
  induction n generalizing k with
  | zero =>
    unfold locate
    rw [ends_bind]
    refine ends_self.imp fun r k' htr => ?_
    rcases r with error | _ | address
    · exact ⟨0, Nat.le_refl 0, .refused htr⟩
    · exact ends_lift.2 (Checked.ends_stop.2 trivial)
    · exact ⟨0, Nat.le_refl 0, .reached htr⟩
  | succ n ih =>
    unfold locate
    rw [ends_bind]
    refine ends_self.imp fun r k₁ htr => ?_
    rcases r with error | _ | address
    · exact ⟨0, Nat.zero_le _, .refused htr⟩
    · dsimp only
      rw [ends_bind]
      refine ends_self.imp fun r k₂ hmiss => ?_
      rcases r with error | ⟨⟩
      · exact ⟨1, Nat.succ_le_succ (Nat.zero_le n), .failed htr hmiss⟩
      · refine ih.imp fun r k' => ?_
        rintro ⟨misses, hle, hrest⟩
        exact ⟨misses + 1, Nat.succ_le_succ hle, .again htr hmiss hrest⟩
    · exact ⟨0, Nat.zero_le _, .reached htr⟩

/-- Where the page is found the bound does not matter. -/
theorem Finds.run_locate (h : k.Finds pid (pageOf k.pageSize vaddr)) (hk : k.Sound pins none)
    (hdiv : k.memory.pageSize < limit32) :
    (locate pid vaddr write n).run.run k = (locate pid vaddr write 0).run.run k := by
  cases n with
  | zero => rfl
  | succ n =>
    unfold locate
    rcases h.run_translate hk hdiv write with ⟨address, k', hrun⟩ | ⟨error, k', hrun⟩
    · rw [run_bind_of_ok hrun, run_bind_of_ok hrun]
    · rw [run_bind_of_error hrun, run_bind_of_error hrun]

/-- A bound of one miss is as good as any other. -/
theorem Sound.run_locate (h : k.Sound pins none) (hsize : 0 < k.tlb.slots.length) :
    (locate pid vaddr write (n + 1)).run.run k = (locate pid vaddr write 1).run.run k := by
  unfold locate
  rcases htr : (translate pid vaddr write).run.run k with v | ⟨error | _ | address, k₁⟩
  · rw [run_bind_of_stop htr, run_bind_of_stop htr]
  · rw [run_bind_of_error htr, run_bind_of_error htr]
  · obtain rfl := eq_of_miss h htr
    rw [run_bind_of_ok htr, run_bind_of_ok htr]
    dsimp only
    rcases hmiss : (handleMiss pid vaddr).run.run k₁ with v | ⟨error | ⟨⟩, k₂⟩
    · rw [run_bind_of_stop hmiss, run_bind_of_stop hmiss]
    · rw [run_bind_of_error hmiss, run_bind_of_error hmiss]
    · rw [run_bind_of_ok hmiss, run_bind_of_ok hmiss]
      obtain ⟨hserved, hdiv, hfinds⟩ := h.finds_of_handleMiss hsize hmiss
      exact hfinds.run_locate hserved hdiv
  · rw [run_bind_of_ok htr, run_bind_of_ok htr]

/-- An instruction ends as the loop does, which serves at most one miss, unless there is no live
    process with a page at the address. -/
theorem ends_userAddress_retried (hc : Tolerated c V k) (h : k.Sound pins none)
    (hsize : 0 < k.tlb.slots.length) :
    Ends V (userAddress pid vaddr write).run k fun r k' =>
      (∃ misses ≤ 1, Retried pid vaddr write misses k r k') ∨
        (∀ p, k.residency.process? pid = some p → p.exited = false →
          p.numPages ≤ pageOf k.pageSize vaddr) ∧ k' = k ∧
        (r = .error (.processExited pid) ∨
          r = .error (.addressOutOfRange (pageOf k.pageSize vaddr))) := by
  have hreturns : Ends V (userAddress pid vaddr write).run k fun _ _ => True :=
    ends_userAddress hc h hsize (fun _ _ _ => trivial) fun _ _ _ => trivial
  refine hreturns.of_returns ?_
  unfold userAddress
  rw [ends_bind]
  refine ends_liveProcess (fun hdead => .inr ⟨fun p hp hlive => ?_, rfl, .inl rfl⟩) fun p hp _ => ?_
  · cases hlive.symm.trans (hdead p hp)
  dsimp only
  rw [ends_bind, ends_get]
  dsimp only
  rw [ends_bind, ends_lift]
  refine h.ends_divisor (.inr trivial) fun _ => ?_
  dsimp only
  rw [ends_ite, ends_bind, ends_throw]
  refine ⟨fun hout => .inr ⟨fun p' hp' _ => ?_, rfl, .inr rfl⟩,
    fun _ => ends_locate_retried.imp fun _ _ hdone => .inl hdone⟩
  cases hp.symm.trans hp'
  exact hout

/-! ## Reachable kernels -/

/-- Whatever the next random slots are, an instruction serves at most one miss: one that has been
    served leaves a mapping of the page in the TLB, so that the next translation does not miss,
    however often it might be retried. -/
theorem Reachable.miss_served_once (h : k.Reachable) (choices : Choices) (pid : Pid) (vaddr : Nat)
    (write : Bool) :
    (∀ k', (handleMiss pid vaddr).run.run { k with choices } = .ok (.ok (), k') →
      k'.Finds pid (pageOf k'.pageSize vaddr) ∧
        ∃ r k'', (translate pid vaddr write).run.run k' = .ok (r, k'') ∧ r ≠ .ok none) ∧
    (∀ misses r k', Retried pid vaddr write misses { k with choices } r k' → misses ≤ 1) ∧
    (∀ n, (locate pid vaddr write (n + 1)).run.run { k with choices } =
      (locate pid vaddr write 1).run.run { k with choices }) ∧
    ∀ {c : Conduct σ} {V : Violation → Prop}, Tolerated c V k →
      Ends V (userAddress pid vaddr write).run { k with choices } fun r k' =>
        (∃ misses ≤ 1, Retried pid vaddr write misses { k with choices } r k') ∨
          (∀ p, k.residency.process? pid = some p → p.exited = false →
            p.numPages ≤ pageOf k.pageSize vaddr) ∧ k' = { k with choices } ∧
          (r = .error (.processExited pid) ∨
            r = .error (.addressOutOfRange (pageOf k.pageSize vaddr))) := by
  obtain ⟨pins, hsound, hsize⟩ := h.sound
  have hdealt : Sound pins none { k with choices } := hsound.redealt
  refine ⟨fun k' hmiss => ?_, fun misses r k' hloop => hloop.le_one hdealt hsize,
    fun n => hdealt.run_locate hsize, fun hc => ?_⟩
  · obtain ⟨hserved, hdiv, hfinds⟩ := hdealt.finds_of_handleMiss hsize hmiss
    refine ⟨hfinds, ?_⟩
    rcases hfinds.run_translate hserved hdiv write with ⟨_, k'', hrun⟩ | ⟨_, k'', hrun⟩
    · exact ⟨_, k'', hrun, by simp⟩
    · exact ⟨_, k'', hrun, by simp⟩
  · exact ends_userAddress_retried ⟨hc.store, hc.loads, hc.divides⟩ hdealt hsize

/-! ### One frame -/

/-- What there is to see when an instruction loads the last byte of the first page: the TLB, the
    state of the page, what the translation comes to, and the address that is reached. -/
def seenAtMiss (k : Kernel MemoryStore) : Tlb × Option PageState × Option (Option Nat) × Option Nat :=
  (k.tlb, (k.residency.page? 1 0).map (·.state), answer? (translate 1 3 false) k,
    answer? (userAddress 1 3 false) k)

/-- The page behind was written to last, and has the frame and the slot of the TLB. -/
theorem exists_missing : ∃ k : Kernel MemoryStore, k.Reachable ∧ seenAtMiss k =
    (⟨[⟨⟨1, 0, true, false, true, true⟩, some 1⟩]⟩, some (.swapped 0), some none, some 3) := by
  have hrun : (boot 4 { physPages := 1, tlbSize := 1, stackPages := 1 } ({} : MemoryStore)
      [{ name := "data", firstVpn := 0, readOnly := false, pageSize := 4
         content := .data (.ofList [1, 2, 3]) }] [] >>= fun k => (fun r => seenAtMiss r.2) <$>
        (Kernel.run [.spawn [0], .process 1 (.storeByte 3 9), .process 1 (.storeByte 4 8)]).run
          k).toOption =
      some (⟨[⟨⟨1, 0, true, false, true, true⟩, some 1⟩]⟩, some (.swapped 0), some none,
        some 3) := by
    decide +kernel
  exact Reachable.exists_of_run hrun

/-- On one frame, with one slot of the TLB: the instruction misses, the miss evicts the page that
    has the slot, and the page that it brings is found. -/
theorem Reachable.miss_served_once_on_one_frame : ∃ k k' : Kernel MemoryStore,
    k.tlb = ⟨[⟨⟨1, 0, true, false, true, true⟩, some 1⟩]⟩ ∧
      (k.residency.page? 1 0).map (·.state) = some (.swapped 0) ∧
      Retried 1 3 false 1 k (.ok 3) k' := by
  obtain ⟨k, hk, hseen⟩ := exists_missing
  simp only [seenAtMiss, Prod.mk.injEq, answer?_eq_some] at hseen
  obtain ⟨htlb, hstate, ⟨k₁, hmiss⟩, k', haddress⟩ := hseen
  obtain ⟨-, -, -, hends⟩ := Reachable.miss_served_once hk k.choices 1 3 false
  obtain ⟨misses, hle, hloop⟩ | ⟨-, -, hrefused⟩ := (hends Tolerated.any).of_run haddress
  · obtain rfl | rfl := Nat.le_one_iff_eq_zero_or_eq_one.1 hle
    · cases hloop with
      | reached htr => cases htr.symm.trans hmiss
    · exact ⟨k, k', htlb, hstate, hloop⟩
  · rcases hrefused with hrefused | hrefused <;> cases hrefused

end Instructions

end Kernel

end DemandPaging
