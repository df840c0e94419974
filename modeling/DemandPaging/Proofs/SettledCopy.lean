/-
  Copies between settled kernels.

  A copy goes through the page table, not through the TLB, and marks the entry of the page
  itself.  So it does to the settled kernel what it does to the kernel, chunk by chunk.
-/
import DemandPaging.Proofs.Copy
import DemandPaging.Proofs.SettledFault

namespace DemandPaging.Kernel

variable {σ τ α : Type} [BackingStore σ] [BackingStore τ] {t : σ → τ} {pins : Frame → Nat}
  {k k' : Kernel σ} {pid : Pid} {v : Vpn} {write : Bool} {chunk : Chunk}

theorem follows_pinPage (ht : Carries t) (h : k.Sound pins none) :
    Tracks (settle t) id (pinPage pid v write) (pinPage pid v write) k := by
  have hplace : (pinPage pid v write : KernelM τ Frame) = (place <$> resolve pid v) >>= fun m => do
      if write && m.2 then
        throw (.readOnly v)
      let touched ← Action.ofExcept id ((← liveProcess pid).table.touch v write)
      onResidency fun r => .ok (r.setTable pid touched.2)
      onFrames (·.record m.1 touched.1.mapping)
      onFrames (·.pin m.1)
      return m.1 := by
    rw [bind_map_left]
    rfl
  rw [hplace]
  unfold pinPage
  refine follows_bind_ends (follows_resolve ht h)
    (ends_resolve .any h fun _ _ hres => hres) fun m k₁ hres => ?_
  obtain ⟨⟨h₁, -⟩, e, f, he, hs, rfl⟩ := hres.ready h
  obtain ⟨p, hp, -, hentry⟩ := Residency.page?_eq_some_iff.1 he
  have hro : (place e.mapping).2 = e.mapping.readOnly := rfl
  have hppn : (place e.mapping).1 = e.mapping.ppn := rfl
  simp only [hro, hppn]
  split
  · exact follows_throw
  · refine follows_bind follows_liveProcess fun p' k₂ hrun => ?_
    obtain ⟨hp', -, rfl⟩ := liveProcess_eq_ok hrun
    cases hp.symm.trans hp'
    refine follows_ofExcept_bind (PageTable.touch_settle hentry hs) fun touched htouched => ?_
    have htouch : p.table.touch v write = .ok (e.touch write, p.table.set v (e.touch write)) := by
      rw [PageTable.touch, PageTable.get_eq hentry]
      rfl
    cases htouch.symm.trans htouched
    have hstate : (e.touch write).state = .resident f := hs
    have hmapping : ((e.touch write).settle k₂.tlb.mappings).mapping =
        (e.touch write).mapping.absorb k₂.tlb.mappings := by
      rw [PageEntry.settle_resident hstate, PageEntry.mapping_absorb]
    dsimp only
    rw [hmapping]
    refine follows_onResidency_bind (congrArg Except.ok Residency.setTable_settle) fun r _ => ?_
    refine follows_onFrames_bind FrameTable.record_absorb fun table _ => ?_
    exact follows_onFrames_bind FrameTable.pin_absorb fun table _ => follows_pure rfl

/-! ## Chunks -/

theorem follows_copyChunk {copy : Nat → KernelM σ α} {copy' : Nat → KernelM τ α} (ht : Carries t)
    (h : k.Sound pins none)
    (hcopy : ∀ address k, Tracks (settle t) id (copy address) (copy' address) k) :
    Tracks (settle t) id (copyChunk pid write chunk copy) (copyChunk pid write chunk copy') k := by
  unfold copyChunk
  refine follows_bind (follows_pinPage ht h) fun f k₁ _ => follows_get ?_
  refine follows_bind (w := Except.map id) (follows_observe (hcopy _ k₁)) fun copied k₂ _ => ?_
  refine follows_onFrames_bind FrameTable.unpin_absorb fun table _ => follows_ofExcept rfl

variable {list : List Chunk} {pieces : List Bytes} {data : Bytes} {moved : Nat}

theorem follows_readChunks (ht : Carries t) (h : k.Sound pins none)
    (hfits : ∀ chunk ∈ list, chunk.offset + chunk.amount ≤ k.memory.pageSize) :
    Follows (settle t) id (readChunks pid list pieces) (readChunks pid list pieces) k := by
  induction list generalizing k pieces with
  | nil => exact step_follows_pure
  | cons c rest ih =>
    unfold readChunks
    refine step_follows_bind (follows_copyChunk ht h fun _ _ => follows_reading) fun r k₁ hrun => ?_
    cases r with
    | error e => exact step_follows_pure
    | ok bytes =>
      have hcopied := (ends_copyChunk .any h (fun _ _ => .inr trivial)
        (moves_read (hfits c List.mem_cons_self)) fun _ _ hcopied => hcopied).of_run hrun
      have hstays := hcopied.stays_of_read h
      exact ih hstays.sound (hstays.keeps.fits_rest hfits)

theorem follows_writeChunks (ht : Carries t) (h : k.Sound pins none)
    (hfits : ∀ chunk ∈ list, chunk.offset + chunk.amount ≤ k.memory.pageSize) :
    Tracks (settle t) id (writeChunks pid list data moved) (writeChunks pid list data moved) k := by
  induction list generalizing k data moved with
  | nil => exact follows_pure rfl
  | cons c rest ih =>
    unfold writeChunks
    refine follows_bind (follows_copyChunk ht h fun _ _ => follows_writing) fun _ k₁ hrun => ?_
    have hchunk := hfits c List.mem_cons_self
    have htake : (data.take c.amount).length ≤ c.amount := List.length_take_le _ _
    have hcopied := (ends_copyChunk .any h (fun _ _ => .inr trivial)
      (moves_write hchunk htake) fun _ _ hcopied => hcopied).of_run hrun
    have hstays := hcopied.stays_of_write h (by omega)
    exact ih hstays.sound (hstays.keeps.fits_rest hfits)

theorem follows_readBytes {vaddr : Nat} {buffer : Bytes} (ht : Carries t) (h : k.Sound pins none) :
    Follows (settle t) id (readBytes pid vaddr buffer) (readBytes pid vaddr buffer) k := by
  unfold readBytes
  refine step_follows_bind follows_liveProcess fun r k₁ hrun => ?_
  cases r with
  | error e => exact step_follows_pure
  | ok p =>
    obtain ⟨-, -, rfl⟩ := liveProcess_eq_ok hrun
    refine step_follows_get (step_follows_lift (w := id) (id_map _).symm fun cs hcut => ?_)
    obtain rfl := h.cut_eq_ok hcut
    refine step_follows_bind (follows_readChunks ht h fun _ hmem =>
      chunk_fits h.memory.pageSize_pos hmem) fun r k₂ _ => ?_
    exact step_follows_pure

theorem follows_writeBytes {vaddr : Nat} (ht : Carries t) (h : k.Sound pins none) :
    Tracks (settle t) id (writeBytes pid vaddr data) (writeBytes pid vaddr data) k := by
  unfold writeBytes
  refine follows_bind follows_liveProcess fun p k₁ hrun => ?_
  obtain ⟨-, -, rfl⟩ := liveProcess_eq_ok hrun
  refine follows_get (follows_lift (w := id) (id_map _).symm fun cs hcut => ?_)
  obtain rfl := h.cut_eq_ok hcut
  exact follows_writeChunks ht h fun _ hmem => chunk_fits h.memory.pageSize_pos hmem

end DemandPaging.Kernel
