/-
  The machine without a TLB.

  On it an instruction resolves its page and goes straight to the page table, which records
  the access (`reach`).  The kernel does to the settled kernel what this machine does: a hit in
  the TLB sets the bits that `reach` sets, and a miss loads a mapping that has the bits of its
  entry.
-/
import DemandPaging.Proofs.Access
import DemandPaging.Proofs.SettledFault

namespace DemandPaging.Kernel

variable {σ τ α β : Type} {t : σ → τ} {w : α → β} {pins : Frame → Nat} {k k' k₁ : Kernel σ}
  {pid : Pid} {v : Vpn} {e : PageEntry} {f : Frame} {p : Process} {m : Mapping} {i vaddr : Nat}
  {slot : TlbSlot} {write : Bool} {copies : List Mapping}

/-! ## Accesses -/

/-- Records an access to a page that is in a frame, and answers the frame. -/
def reach (pid : Pid) (v : Vpn) (write : Bool) : KernelM σ Frame := do
  let (entry, table) ← Action.ofExcept id ((← liveProcess pid).table.touch v write)
  if write && entry.readOnly then
    throw (.readOnly v)
  onResidency fun r => .ok (r.setTable pid table)
  onFrames (·.record entry.mapping.ppn entry.mapping)
  return entry.mapping.ppn

/-- The physical address that an instruction reaches on a machine without a TLB. -/
def directAddress [BackingStore σ] (pid : Pid) (vaddr : Nat) (write : Bool) : KernelM σ Nat := do
  let process ← liveProcess pid
  let k ← get
  let size ← divisor k.pageSize
  let vpn := pageOf size vaddr
  if process.numPages ≤ vpn then
    throw (.addressOutOfRange vpn)
  let _ ← resolve pid vpn
  let frame ← reach pid vpn write
  return frame * k.pageSize + offsetIn size vaddr

/-- A page of a process that has not exited, in a frame. -/
structure Present (pid : Pid) (v : Vpn) (e : PageEntry) (f : Frame) (n : Nat) (p : Process)
    (r : Residency) : Prop where
  process : r.process? pid = some p
  live : p.exited = false
  registered : p.registered = true
  entry : p.table.find? v = some e
  resident : e.state = .resident f
  info : r.frames.info? f = some (.holding pid e n)

theorem Sound.present (h : k.Sound pins none) (he : k.residency.page? pid v = some e)
    (hs : e.state = .resident f) : ∃ p, Present pid v e f (pins f) p k.residency := by
  obtain ⟨p, hp, hreg, hentry⟩ := Residency.page?_eq_some_iff.1 he
  exact ⟨p, hp, h.live_of_registered hp hreg, hreg, hentry, hs, (h.frames.resident he hs).2⟩

theorem Present.settle {n : Nat} {r : Residency} (h : Present pid v e f n p r) :
    Present pid v (e.settle copies) f n (p.map (.settle copies)) (r.settle copies) where
  process := by rw [Residency.process?_settle, h.process]; rfl
  live := h.live
  registered := h.registered
  entry := by
    change (p.table.map (.settle copies)).find? v = _
    rw [PageTable.find?_map, h.entry, Option.map_some]
  resident := PageEntry.state_settle.trans h.resident
  info := by
    rw [PageEntry.settle_resident h.resident, ← FrameInfo.absorb_holding]
    exact Residency.info?_map.trans (by rw [h.info, Option.map_some])

theorem ends_reach {V : Violation → Prop} {n : Nat} {Q : Except PagingError Frame → Kernel σ → Prop}
    (h : Present pid v e f n p k.residency)
    (hrefused : write = true → e.readOnly = true → Q (.error (.readOnly v)) k)
    (hok : (write = true → e.readOnly = false) → Q (.ok f) { k with
      residency := k.residency.link pid v (e.touch write) f (.holding pid (e.touch write) n) }) :
    Ends V (reach pid v write).run k Q := by
  have hppn : (e.touch write).mapping.ppn = f := by
    simp [PageEntry.mapping, PageEntry.frame, PageEntry.touch, h.resident]
  have htouch : p.table.touch v write = .ok (e.touch write, p.table.set v (e.touch write)) := by
    rw [PageTable.touch, PageTable.get_eq h.entry]
    rfl
  have htable : k.residency.table? pid = some p.table :=
    Residency.table?_eq_some_iff.2 ⟨p, h.process, h.registered, rfl⟩
  unfold reach
  refine ends_bind.2 (ends_liveProcess (fun hdead => ?_) fun p' hp' _ => ?_)
  · exact absurd (hdead p h.process) (by simp [h.live])
  cases h.process.symm.trans hp'
  dsimp only
  rw [htouch]
  simp only [ends_bind, ends_ofExcept, mapError_ok, ends_ite, ends_throw]
  refine ⟨fun hrefuse => ?_, fun hallow => ?_⟩
  · simp only [Bool.and_eq_true] at hrefuse
    exact hrefused hrefuse.1 hrefuse.2
  · have hrecord : (k.residency.setEntry pid v (e.touch write)).frames.record f
        (e.touch write).mapping = .ok (k.residency.frames.put f (.holding pid (e.touch write) n)) := by
      rw [Residency.setEntry, Residency.frames_updateProcess, FrameTable.record_eq h.info]
      rfl
    rw [ends_change, Residency.setTable_eq htable, hppn]
    refine (ends_onFrames hrecord).2 (hok fun hw => ?_)
    have hro : ¬ (write && e.readOnly) = true := hallow
    simpa [hw] using hro

/-! ## Hits -/

/-- A page's entry and its frame's record may be settled before or after they change. -/
theorem settle_link {r : Residency} {j : FrameInfo} :
    (r.link pid v e f j).settle copies =
      (r.settle copies).link pid v (e.settle copies) f (j.absorb copies) := by
  have hset : (r.settle copies).setEntry pid v (e.settle copies) = _ := Residency.setEntry_settle
  have hput : (r.frames.absorb copies).put f (j.absorb copies) = _ := FrameTable.put_absorb
  unfold Residency.link
  rw [hset, Residency.frames_settle, hput]
  rfl

/-- A hit through a slot is an access to the page that the slot leads to. -/
theorem Sound.settle_touched (h : k.Sound pins none) (hslot : k.tlb.slots[i]? = some slot)
    (hv : slot.mapping.valid = true) (he : k.residency.page? pid v = some e)
    (hs : e.state = .resident slot.mapping.ppn) :
    (k.touched i slot write).settle t = { k.settle t with
      residency := (k.residency.settle k.tlb.mappings).link pid v
        ((e.settle k.tlb.mappings).touch write) slot.mapping.ppn
        (.holding pid ((e.settle k.tlb.mappings).touch write) (pins slot.mapping.ppn)) } := by
  let m : Mapping := { slot.mapping with used := true, dirty := slot.mapping.dirty || write }
  have hbits : k.residency.settle (k.touched i slot write).tlb.mappings =
      k.residency.settle (k.tlb.mappings ++ [m]) := by
    refine h.frames.settle_congr fun {_ _ _ f} _ _ => ⟨congrArg _ ?_, congrArg _ ?_⟩
    · refine Tlb.bit_gained (b := (·.used)) hslot fun hbit => ?_
      simp_all [bitIn]
    · refine Tlb.bit_gained (b := (·.dirty)) hslot fun hbit => ?_
      simp_all [bitIn]
  have hmem : slot.mapping ∈ k.tlb.mappings := List.mem_map.2 ⟨slot, List.mem_of_getElem? hslot, rfl⟩
  have habsorb : (k.residency.absorb k.tlb.mappings).page? pid v = some (e.settle k.tlb.mappings) := by
    rw [Residency.page?_absorb, he, PageEntry.settle_resident hs, Option.map_some]
  have hmerge : (e.settle k.tlb.mappings).merge m = (e.settle k.tlb.mappings).touch write := by
    have hdirty : slot.mapping.dirty = true → dirtyIn k.tlb.mappings slot.mapping.ppn = true := by
      intro hd
      refine List.any_eq_true.2 ⟨slot.mapping, hmem, ?_⟩
      simp [hv, hd]
    rw [PageEntry.settle_resident hs, PageEntry.absorb_resident hs]
    cases hd : slot.mapping.dirty <;> simp_all [PageEntry.merge, PageEntry.touch, m]
  have hlink := (h.frames.absorb h.tlb.backsAll).absorb_singleton (m := m) hv habsorb
    (PageEntry.state_settle.trans hs)
  rw [hmerge] at hlink
  have hstate : ((e.settle k.tlb.mappings).touch write).state = .resident slot.mapping.ppn :=
    PageEntry.state_settle.trans hs
  have hself : ((e.settle k.tlb.mappings).touch write).settle [] =
      (e.settle k.tlb.mappings).touch write :=
    PageEntry.settle_eq (by simp [hstate]) fun _ _ => ⟨rfl, rfl⟩
  have hsettle : k.residency.settle (k.tlb.mappings ++ [m]) =
      (k.residency.settle k.tlb.mappings).link pid v ((e.settle k.tlb.mappings).touch write)
        slot.mapping.ppn
        (.holding pid ((e.settle k.tlb.mappings).touch write) (pins slot.mapping.ppn)) := by
    have hempty : k.residency.settle (k.tlb.mappings ++ [m]) =
        ((k.residency.absorb k.tlb.mappings).absorb [m]).settle [] := by
      rw [Residency.absorb_absorb, Residency.settle_absorb, List.append_nil]
    have hfirst : (k.residency.absorb k.tlb.mappings).settle [] =
        k.residency.settle k.tlb.mappings := by
      rw [Residency.settle_absorb, List.append_nil]
    rw [hempty, hlink, settle_link, hfirst, FrameInfo.absorb_holding,
      ← PageEntry.settle_resident hstate, hself]
  exact congrArg (fun r => { k.settle t with residency := r }) (hbits.trans hsettle)

theorem follows_hit (h : k.Sound pins none) (hdiv : k.memory.pageSize < limit32)
    (hhit : k.tlb.lookup pid (pageOf k.memory.pageSize vaddr) ≠ none) :
    Tracks (settle t) id (translate pid vaddr write)
      ((fun f => some (f * k.memory.pageSize + offsetIn k.memory.pageSize vaddr)) <$>
        reach pid (pageOf k.memory.pageSize vaddr) write) k := by
  obtain ⟨r, k', hrun, htr⟩ := ends_iff_eq_ok.1
    (ends_translate h (.inl hdiv) (Q := Translated pid vaddr write k) fun _ _ htr => htr)
  refine follows_of_run hrun (ends_map.2 ?_)
  cases htr with
  | miss hnone => exact absurd hnone hhit
  | @refused i slot hslot hv hvpn ho hwrite hro =>
    obtain ⟨e, he, hs, hsame, -⟩ := h.tlb.backs (List.mem_of_getElem? hslot) hv ho
    rw [hvpn] at he
    obtain ⟨p, hpresent⟩ := h.present he hs
    refine ends_reach hpresent.settle (fun _ _ => ⟨rfl, rfl⟩) fun hallow => ?_
    have hrw : e.readOnly = false := PageEntry.readOnly_settle.symm.trans (hallow hwrite)
    rw [← hsame, hro] at hrw
    cases hrw
  | @hit i slot hslot hv hvpn ho hwrite =>
    obtain ⟨e, he, hs, hsame, -⟩ := h.tlb.backs (List.mem_of_getElem? hslot) hv ho
    rw [hvpn] at he
    obtain ⟨p, hpresent⟩ := h.present he hs
    refine ends_reach hpresent.settle (fun hw hro => ?_) fun _ => ⟨rfl, ?_⟩
    · rw [PageEntry.readOnly_settle, ← hsame, hwrite hw] at hro
      cases hro
    · exact (h.settle_touched hslot hv he hs).symm

/-! ## Instructions -/

section Instructions

variable [BackingStore σ] [BackingStore τ]

/-- A page that is in a frame needs no fault. -/
theorem run_resolve {n : Nat} (h : Present pid v e f n p k.residency) :
    (resolve pid v).run.run k = .ok (.ok e.mapping, k) := by
  have hends : Ends (fun _ => False) (resolve pid v).run k fun r k' => r = .ok e.mapping ∧ k' = k := by
    unfold resolve
    refine ends_bind.2 (ends_liveProcess (fun hdead => ?_) fun p' hp' _ => ?_)
    · exact absurd (hdead p h.process) (by simp [h.live])
    cases h.process.symm.trans hp'
    have hvalid : e.isValid = true := by rw [PageEntry.isValid, PageEntry.frame, h.resident]; rfl
    refine ends_bind.2 (ends_ofExcept.2 ?_)
    rw [PageTable.get_eq h.entry, mapError_ok]
    dsimp only
    rw [if_pos hvalid]
    exact ⟨rfl, rfl⟩
  obtain ⟨_, _, hrun, rfl, rfl⟩ := ends_iff_eq_ok.1 hends
  exact hrun

theorem follows_handleMiss (ht : Carries t) (h : k.Sound pins none) (hsize : 0 < k.tlb.slots.length) :
    Tracks (settle t) id (handleMiss pid vaddr)
      (liftM (divisor k.memory.pageSize) >>= fun size =>
        resolve pid (pageOf size vaddr) >>= fun _ => pure ()) k := by
  unfold handleMiss
  refine follows_get_left (follows_lift (w := id) (id_map _).symm fun size hdiv => ?_)
  obtain ⟨rfl, -⟩ := h.divisor_eq_ok hdiv
  have hplace : (resolve pid (pageOf k.memory.pageSize vaddr) >>= fun _ => pure () : KernelM τ Unit) =
      (place <$> resolve pid (pageOf k.memory.pageSize vaddr)) >>= fun _ => pure () := by
    rw [bind_map_left]
  change Tracks _ _ _ (resolve pid (pageOf k.memory.pageSize vaddr) >>= fun _ => pure ()) _
  rw [hplace]
  refine follows_bind_ends (follows_resolve ht h)
    (ends_resolve .any h fun _ _ hres => hres) fun m k₁ hres => ?_
  have hready := hres.ready h
  obtain ⟨e, f, he, hs, rfl⟩ := hready.page
  exact follows_install hready.sound (hready.keeps.tlbSize ▸ hsize) he hs

omit [BackingStore σ] [BackingStore τ] in
/-- A try of an instruction that hits, whatever would come of a miss. -/
theorem follows_try (h : k.Sound pins none) (hdiv : k.memory.pageSize < limit32)
    (hhit : k.tlb.lookup pid (pageOf k.memory.pageSize vaddr) ≠ none) {next : KernelM σ Nat} :
    Tracks (settle t) id
      (translate pid vaddr write >>= fun found =>
        match found with
        | some address => pure address
        | none => next)
      (reach pid (pageOf k.memory.pageSize vaddr) write >>= fun f =>
        pure (f * k.memory.pageSize + offsetIn k.memory.pageSize vaddr)) k := by
  have hsplit : (reach pid (pageOf k.memory.pageSize vaddr) write >>= fun f =>
        pure (f * k.memory.pageSize + offsetIn k.memory.pageSize vaddr) : KernelM τ Nat) =
      ((fun f => some (f * k.memory.pageSize + offsetIn k.memory.pageSize vaddr)) <$>
        reach pid (pageOf k.memory.pageSize vaddr) write) >>= fun found => pure (found.getD 0) := by
    rw [bind_map_left]
    rfl
  rw [hsplit]
  refine follows_bind_ends (follows_hit h hdiv hhit)
    (ends_translate h (.inr trivial) (Q := Translated pid vaddr write k) fun _ _ htr => htr)
    fun found k' htr => ?_
  cases htr with
  | miss hnone => exact absurd hnone hhit
  | hit => exact follows_pure rfl

theorem follows_locate (ht : Carries t) (h : k.Sound pins none) (hsize : 0 < k.tlb.slots.length)
    (hdiv : k.memory.pageSize < limit32) :
    Tracks (settle t) id (locate pid vaddr write 1)
      (resolve pid (pageOf k.memory.pageSize vaddr) >>= fun _ =>
        reach pid (pageOf k.memory.pageSize vaddr) write >>= fun f =>
          pure (f * k.memory.pageSize + offsetIn k.memory.pageSize vaddr)) k := by
  cases hlookup : k.tlb.lookup pid (pageOf k.memory.pageSize vaddr) with
  | none =>
    have hmiss : (translate pid vaddr write).run.run k = .ok (.ok none, k) := by
      obtain ⟨r, k', hrun, htr⟩ := ends_iff_eq_ok.1
        (ends_translate h (.inl hdiv) (Q := Translated pid vaddr write k) fun _ _ htr => htr)
      cases htr with
      | miss _ => exact hrun
      | refused hslot hv hvpn ho _ _ =>
        exact absurd hlookup (Tlb.lookup_ne_none (List.mem_of_getElem? hslot) hv hvpn ho)
      | hit hslot hv hvpn ho _ =>
        exact absurd hlookup (Tlb.lookup_ne_none (List.mem_of_getElem? hslot) hv hvpn ho)
    have hserved : Tracks (settle t) id (handleMiss pid vaddr >>= fun _ => locate pid vaddr write 0)
        ((liftM (divisor k.memory.pageSize) >>= fun size =>
            resolve pid (pageOf size vaddr) >>= fun _ => pure ()) >>= fun _ =>
          reach pid (pageOf k.memory.pageSize vaddr) write >>= fun f =>
            pure (f * k.memory.pageSize + offsetIn k.memory.pageSize vaddr)) k := by
      refine follows_bind_ends (follows_handleMiss ht h hsize)
        (ends_handleMiss .any h hsize fun _ _ hserved => hserved) fun _ k₂ hserved => ?_
      have hstays := hserved.stays h
      have hhit := hserved.lookup h
      have hps : k₂.memory.pageSize = k.memory.pageSize := hstays.keeps.pageSize
      rw [← hps] at hhit hdiv ⊢
      unfold locate
      exact follows_try hstays.sound hdiv hhit
    refine hserved.congr ?_ ?_
    · unfold locate
      rw [run_bind_of_ok hmiss]
      rfl
    · rw [divisor_eq h.memory.pageSize_pos hdiv]
      simp only [bind_assoc, pure_bind]
      rfl
  | some i =>
    have hhit : k.tlb.lookup pid (pageOf k.memory.pageSize vaddr) ≠ none := by simp [hlookup]
    obtain ⟨slot, hslot, hv, hvpn, ho⟩ := Tlb.lookup_eq_some hlookup
    obtain ⟨e, he, hs, -⟩ := h.tlb.backs (List.mem_of_getElem? hslot) hv ho
    rw [hvpn] at he
    obtain ⟨p, hpresent⟩ := h.present he hs
    unfold locate
    exact (follows_try h hdiv hhit).congr rfl (run_bind_of_ok (run_resolve hpresent.settle))

theorem follows_userAddress (ht : Carries t) (h : k.Sound pins none)
    (hsize : 0 < k.tlb.slots.length) :
    Tracks (settle t) id (userAddress pid vaddr write) (directAddress pid vaddr write) k := by
  unfold userAddress directAddress
  refine follows_bind follows_liveProcess fun p k₁ hrun => ?_
  obtain ⟨-, -, rfl⟩ := liveProcess_eq_ok hrun
  refine follows_get (follows_lift (w := id) (id_map _).symm fun size hdivisor => ?_)
  obtain ⟨rfl, hdiv⟩ := h.divisor_eq_ok hdivisor
  have hpages : (p.map (.settle k₁.tlb.mappings)).numPages = p.numPages := rfl
  have hps : (k₁.settle t).pageSize = k₁.memory.pageSize := rfl
  simp only [hpages, hps, id]
  split
  · exact follows_throw
  · exact follows_locate ht h hsize hdiv

end Instructions

end DemandPaging.Kernel
