/-
  What always holds of frames, page tables and TLB.

  `FramesAgree` is the state of the frames in a reachable kernel as the page tables see it, and
  `TlbAgrees` that of the TLB.  Both are read off the invariant, and are stated about process
  records, page table entries and frame records, without reference to it.

  * `Reachable.framesAgree`: frames, pool and page tables;
  * `Reachable.tlbAgrees`: the slots of the TLB.
-/
import DemandPaging.Proofs.Reachable

namespace DemandPaging

/-- A frame waits for its last pin: nobody owns it, and it will go to the pool. -/
def FrameInfo.waits (i : FrameInfo) : Bool := !i.isOwned && i.isPinned && i.freeWhenUnpinned

namespace Kernel

variable {σ : Type} {k : Kernel σ} {pins : Frame → Nat}

/-! ## Frames and page tables -/

/-- The frames, the pool and the page tables of a kernel agree. -/
structure FramesAgree (k : Kernel σ) : Prop where
  /-- A frame belongs to a page exactly when the page, of a live process, is in the frame. -/
  owned_iff : ∀ {f pid v},
    (∃ i, k.residency.frames.info? f = some i ∧ i.owner = some pid ∧ i.mapping.vpn = v) ↔
      ∃ p e, k.residency.process? pid = some p ∧ p.exited = false ∧ p.table.find? v = some e ∧
        e.state = .resident f
  /-- The mapping recorded for a frame is that of the page. -/
  recorded : ∀ {f i pid p e}, k.residency.frames.info? f = some i → i.owner = some pid →
    k.residency.process? pid = some p → p.table.find? i.mapping.vpn = some e →
    i.mapping = e.mapping
  /-- No frame is resident in two entries, of live processes or of others. -/
  once : ∀ {pid p v e q p' w e' f}, k.residency.process? pid = some p →
    p.table.find? v = some e → e.state = .resident f → k.residency.process? q = some p' →
    p'.table.find? w = some e' → e'.state = .resident f → q = pid ∧ w = v
  pool_nodup : k.residency.frames.pool.toList.Nodup
  /-- The frames in the pool are those that nobody owns and no pin holds. -/
  mem_pool_iff : ∀ {f}, f ∈ k.residency.frames.pool.toList ↔
    ∃ i, k.residency.frames.info? f = some i ∧ i.isOwned = false ∧ i.isPinned = false
  /-- No page is in a frame of the pool. -/
  unmapped : ∀ {f pid p v e}, f ∈ k.residency.frames.pool.toList →
    k.residency.process? pid = some p → p.table.find? v = some e → e.state ≠ .resident f
  /-- Every frame is either in the pool, or owned, or waiting for its last pin. -/
  parted : ∀ {f i}, k.residency.frames.info? f = some i →
    (f ∈ k.residency.frames.pool.toList ∧ i.isOwned = false ∧ i.waits = false) ∨
    (f ∉ k.residency.frames.pool.toList ∧ i.isOwned = true ∧ i.waits = false) ∨
    (f ∉ k.residency.frames.pool.toList ∧ i.isOwned = false ∧ i.waits = true)
  /-- No frame is lost. -/
  conserved : k.stats.freeFrames + k.stats.ownedFrames +
    k.residency.frames.frames.countP FrameInfo.waits = k.config.physPages
  /-- Without pins no frame waits. -/
  conserved_unpinned : k.stats.pinnedFrames = 0 →
    k.stats.freeFrames + k.stats.ownedFrames = k.config.physPages
  /-- The pages of a live process have their numbers, and the flags of the sections that they
      lie in; pages outside of all sections can be written. -/
  flagged : ∀ {pid p v e}, k.residency.process? pid = some p → p.exited = false →
    p.table.find? v = some e → e.vpn = v ∧ ∃ exe s, k.executable p.executable = .ok exe ∧
      exe.sectionFor v = .ok s ∧ e.readOnly = s.any (·.readOnly)

/-- A page that has content outside of the image belongs to a live process. -/
theorem Sound.live_of_content {pid : Pid} {p : Process} {v : Vpn} {e : PageEntry}
    (h : k.Sound pins none) (hp : k.residency.process? pid = some p)
    (he : p.table.find? v = some e) (hs : e.state ≠ .absent) :
    k.residency.page? pid v = some e ∧ p.exited = false := by
  have hpage : k.residency.page? pid v = some e :=
    (h.frames.page?_or_absent hp he).resolve_right hs
  refine ⟨hpage, ?_⟩
  obtain ⟨p', hp', hreg, -⟩ := Residency.page?_eq_some_iff.1 hpage
  cases hp.symm.trans hp'
  exact h.live_of_registered hp hreg

/-- A page that is in a frame belongs to a live process. -/
theorem Sound.live_of_resident {pid : Pid} {p : Process} {v : Vpn} {e : PageEntry} {f : Frame}
    (h : k.Sound pins none) (hp : k.residency.process? pid = some p)
    (he : p.table.find? v = some e) (hs : e.state = .resident f) :
    k.residency.page? pid v = some e ∧ p.exited = false :=
  h.live_of_content hp he (by simp [hs])

/-- A frame in use that nobody owns is in the pool, or waits. -/
theorem Sound.unowned {f : Frame} {i : FrameInfo} (h : k.Sound pins none)
    (hi : k.residency.frames.info? f = some i) (ho : i.isOwned = false)
    (hlt : f < k.residency.frames.usable) :
    (f ∈ k.residency.frames.pool.toList ↔ i.isPinned = false) ∧
      (i.waits = true ↔ i.isPinned = true) := by
  obtain ⟨q, e, -, -, rfl⟩ | ⟨rfl, hpool⟩ := (h.frames.atFrame (by simp)).held_or_unowned hi
  · cases ho
  · have hpinned : (FrameInfo.unowned (pins f)).isPinned = decide (0 < pins f) := rfl
    have hwaits : (FrameInfo.unowned (pins f)).waits = decide (0 < pins f) := Bool.and_self _
    rw [hpool, hwaits, hpinned, decide_eq_false_iff_not, Nat.not_lt, Nat.le_zero, and_iff_left hlt]
    exact ⟨.rfl, .rfl⟩

theorem Sound.mem_pool_iff {f : Frame} (h : k.Sound pins none) :
    f ∈ k.residency.frames.pool.toList ↔ f < k.residency.frames.usable ∧
      ∃ i, k.residency.frames.info? f = some i ∧ i.isOwned = false ∧ i.isPinned = false := by
  constructor
  · intro hmem
    exact ⟨h.frames.pooled_lt hmem, {}, (h.frames.pooled hmem).2, rfl, rfl⟩
  · rintro ⟨hlt, i, hi, ho, hpin⟩
    exact (h.unowned hi ho hlt).1.2 hpin

theorem Sound.usable_eq (h : k.Sound pins none) :
    k.residency.frames.usable = k.memory.numFrames % limit32 :=
  congrArg (· % limit32) h.numFrames

/-- The frames in the pool are those in use that no page is in and that no pin holds. -/
theorem Sound.mem_pool_iff_vacant {f : Frame} (h : k.Sound pins none) :
    f ∈ k.residency.frames.pool.toList ↔ f < k.memory.numFrames % limit32 ∧ pins f = 0 ∧
      ∀ q w, (k.residency.page? q w).map (·.state) ≠ some (.resident f) := by
  rw [h.mem_pool_iff, ← h.usable_eq]
  constructor
  · rintro ⟨hlt, i, hi, ho, hpin⟩
    have hcount : i.pinCount = pins f := h.frames.pinned hi (by simp)
    refine ⟨hlt, ?_, fun q w hstate => ?_⟩
    · rw [← hcount]
      simpa [FrameInfo.isPinned] using hpin
    · obtain ⟨e, he, hs⟩ := Option.map_eq_some_iff.1 hstate
      cases hi.symm.trans (h.frames.resident he hs).2
      cases ho
  · rintro ⟨hf, hpins, hvacant⟩
    obtain ⟨i, hi⟩ := FrameTable.lt_size_iff.1 (Nat.lt_of_lt_of_le hf FrameTable.usable_le)
    have hcount : i.pinCount = pins f := h.frames.pinned hi (by simp)
    refine ⟨hf, i, hi, ?_, by simp [FrameInfo.isPinned, hcount, hpins]⟩
    cases ho : i.owner with
    | none => simp [FrameInfo.isOwned, ho]
    | some q =>
      obtain ⟨e, he, hs, -⟩ := h.frames.owned hi (by simp) ho
      exact absurd (by rw [he, Option.map_some, hs]) (hvacant q i.mapping.vpn)

/-- No frame is surplus when their number is one of 32 bits. -/
theorem Sound.lt_usable {f : Frame} {i : FrameInfo} (h : k.Sound pins none)
    (hsize : k.config.physPages < limit32) (hi : k.residency.frames.info? f = some i) :
    f < k.residency.frames.usable := by
  have hall : k.residency.frames.usable = k.residency.frames.size :=
    Nat.mod_eq_of_lt (h.numFrames.trans h.physPages ▸ hsize)
  exact hall ▸ FrameTable.lt_size hi

/-- Every frame is counted once: in the pool, with its owner, or waiting. -/
theorem Sound.conserved (h : k.Sound pins none) (hsize : k.config.physPages < limit32) :
    k.stats.freeFrames + k.stats.ownedFrames +
      k.residency.frames.frames.countP FrameInfo.waits = k.config.physPages := by
  have hfree : k.residency.frames.pool.toList.length =
      k.residency.frames.frames.toList.countP fun i => !i.isOwned && !i.isPinned := by
    refine length_eq_countP k.residency.frames.pool.nodup_toList fun f => ?_
    rw [h.mem_pool_iff, ← FrameTable.info?_eq,
      and_iff_right_of_imp fun ⟨_, hi, _⟩ => h.lt_usable hsize hi]
    simp
  have hwaits : k.residency.frames.frames.toList.countP FrameInfo.waits =
      k.residency.frames.frames.toList.countP fun i => !i.isOwned && i.isPinned := by
    refine List.countP_congr fun i hi => ?_
    obtain ⟨f, hf⟩ := FrameTable.mem_frames_iff.1 hi
    cases ho : i.isOwned with
    | true => simp [FrameInfo.waits, ho]
    | false =>
      rw [(h.unowned hf ho (h.lt_usable hsize hf)).2]
      simp
  have hlength : k.residency.frames.frames.toList.length = k.config.physPages := by
    rw [← h.physPages, ← h.numFrames]
    exact (Row.size_eq _).symm
  have hsplit := List.countP_eq_countP_filter_add k.residency.frames.frames.toList
    (fun i => !i.isOwned) (fun i => i.isPinned)
  have htotal := List.length_eq_countP_add_countP (fun i => i.isOwned)
    (l := k.residency.frames.frames.toList)
  simp only [List.countP_filter, decide_not, Bool.decide_eq_true, hlength] at hsplit htotal
  simp only [stats, FrameTable.freeFrames, FrameTable.ownedFrames, FramePool.size_eq, Row.countP_eq,
    hfree, hwaits]
  omega

/-- A frame is in the pool, has an owner or waits for its last pin, and nothing of this twice. -/
theorem Sound.parted {f : Frame} {i : FrameInfo} (h : k.Sound pins none)
    (hsize : k.config.physPages < limit32) (hi : k.residency.frames.info? f = some i) :
    (f ∈ k.residency.frames.pool.toList ∧ i.isOwned = false ∧ i.waits = false) ∨
    (f ∉ k.residency.frames.pool.toList ∧ i.isOwned = true ∧ i.waits = false) ∨
    (f ∉ k.residency.frames.pool.toList ∧ i.isOwned = false ∧ i.waits = true) := by
  cases ho : i.isOwned with
  | true =>
    have hout : f ∉ k.residency.frames.pool.toList := fun hmem => by
      cases hi.symm.trans (h.frames.pooled hmem).2
      cases ho
    exact .inr (.inl ⟨hout, rfl, by simp [FrameInfo.waits, ho]⟩)
  | false =>
    obtain ⟨hpool, hwaits⟩ := h.unowned hi ho (h.lt_usable hsize hi)
    cases hpin : i.isPinned with
    | true =>
      refine .inr (.inr ⟨fun hmem => ?_, rfl, hwaits.2 hpin⟩)
      cases hpin.symm.trans (hpool.1 hmem)
    | false => exact .inl ⟨hpool.2 hpin, rfl, by simp [FrameInfo.waits, hpin]⟩

/-- Pages have the flags of the sections that they lie in. -/
theorem Sound.flagged {pid : Pid} {p : Process} {v : Vpn} {e : PageEntry} (h : k.Sound pins none)
    (hp : k.residency.process? pid = some p) (hexit : p.exited = false)
    (he : p.table.find? v = some e) : e.vpn = v ∧ ∃ exe s, k.executable p.executable = .ok exe ∧
      exe.sectionFor v = .ok s ∧ e.readOnly = s.any (·.readOnly) := by
  have hreg := h.registered hp hexit
  have hpage := (Residency.page?_of_process hp hreg).trans he
  have houtline := Residency.outline?_of_process hp
  refine ⟨h.frames.numbered hpage, ?_⟩
  obtain ⟨exe, flags, hexe, -, hro, hfind, hbehind⟩ := executable_eq (h.laid houtline)
  have hflag : (flags ++ List.replicate k.config.stackPages false)[v]? = some e.readOnly := by
    have hflag := Residency.flag_eq hpage
    rwa [houtline, Option.bind_some, hro] at hflag
  rcases Nat.lt_or_ge v flags.length with hlt | hge
  · rw [List.getElem?_append_left hlt] at hflag
    obtain ⟨j, sectionId, s, hpos, hj, -, -, hsro, -⟩ := hfind v _ hflag
    refine ⟨exe, some s, hexe, ?_, hsro.symm⟩
    rw [Executable.sectionFor, hpos]
    exact congrArg Except.ok hj
  · refine ⟨exe, none, hexe, by rw [Executable.sectionFor, hbehind v hge]; rfl, ?_⟩
    rw [List.getElem?_append_right hge, List.getElem?_replicate] at hflag
    split at hflag
    · exact (Option.some.inj hflag).symm
    · cases hflag

theorem FramesAgree.of_sound (h : k.Sound pins none) (hsize : k.config.physPages < limit32) :
    k.FramesAgree := by
  refine {
    owned_iff := ?_, recorded := ?_, once := ?_
    pool_nodup := k.residency.frames.pool.nodup_toList
    mem_pool_iff := h.mem_pool_iff.trans <|
      and_iff_right_of_imp fun ⟨_, hi, _⟩ => h.lt_usable hsize hi
    unmapped := ?_, parted := h.parted hsize, conserved := h.conserved hsize
    conserved_unpinned := ?_, flagged := h.flagged }
  · intro f pid v
    constructor
    · rintro ⟨i, hi, ho, rfl⟩
      obtain ⟨e, he, hs, -⟩ := h.frames.owned hi (by simp) ho
      obtain ⟨p, hp, -, hentry⟩ := Residency.page?_eq_some_iff.1 he
      exact ⟨p, e, hp, (h.live_of_resident hp hentry hs).2, hentry, hs⟩
    · rintro ⟨p, e, hp, -, he, hs⟩
      have hpage := (h.live_of_resident hp he hs).1
      exact ⟨_, (h.frames.resident hpage hs).2, rfl, h.frames.numbered hpage⟩
  · intro f i pid p e hi ho hp he
    obtain ⟨e', he', hs, hheld⟩ := h.frames.owned hi (by simp) ho
    obtain ⟨p', hp', -, hentry⟩ := Residency.page?_eq_some_iff.1 he'
    cases hp.symm.trans hp'
    cases he.symm.trans hentry
    rw [hheld]
    rfl
  · intro pid p v e q p' w e' f hp he hs hp' he' hs'
    exact h.frames.unique (h.live_of_resident hp he hs).1 hs (h.live_of_resident hp' he' hs').1 hs'
  · intro f pid p v e hmem hp he hs
    exact h.frames.notMem_pool (h.live_of_resident hp he hs).1 hs hmem
  · intro hpins
    have hnone : k.residency.frames.frames.countP FrameInfo.waits = 0 := by
      rw [Row.countP_eq, List.countP_eq_zero]
      intro i hi hwaits
      have hno := List.countP_eq_zero.1 ((Row.countP_eq _ _).symm.trans hpins) i hi
      simp only [FrameInfo.waits, Bool.and_eq_true] at hwaits
      exact hno hwaits.1.2
    have hall := h.conserved hsize
    omega

/-! ## The TLB -/

/-- The slots of the TLB and the page tables of a kernel agree. -/
structure TlbAgrees (k : Kernel σ) : Prop where
  /-- A valid slot holds a faithful mapping of a page of the live process it is tagged with. -/
  faithful : ∀ {slot}, slot ∈ k.tlb.slots → slot.mapping.valid = true → ∃ pid p i e,
    slot.owner = some pid ∧ k.residency.process? pid = some p ∧ p.exited = false ∧
    k.residency.frames.info? slot.mapping.ppn = some i ∧ i.owner = some pid ∧
    i.mapping.vpn = slot.mapping.vpn ∧ p.table.find? slot.mapping.vpn = some e ∧
    e.state = .resident slot.mapping.ppn ∧ e.readOnly = slot.mapping.readOnly
  /-- A read-only mapping is never dirty. -/
  clean : ∀ {slot}, slot ∈ k.tlb.slots → slot.mapping.valid = true →
    slot.mapping.readOnly = true → slot.mapping.dirty = false
  /-- No two valid slots hold the same page of the same process. -/
  once : ∀ {i j : Nat} {s t}, k.tlb.slots[i]? = some s → k.tlb.slots[j]? = some t →
    s.mapping.valid = true → t.mapping.valid = true → s.owner = t.owner →
    s.mapping.vpn = t.mapping.vpn → i = j
  /-- No two valid slots lead to the same frame. -/
  apart : ∀ {i j : Nat} {s t}, k.tlb.slots[i]? = some s → k.tlb.slots[j]? = some t →
    s.mapping.valid = true → t.mapping.valid = true → s.mapping.ppn = t.mapping.ppn → i = j
  /-- The valid slots are those with a tag. -/
  tagged : ∀ {slot}, slot ∈ k.tlb.slots → slot.mapping.valid = slot.owner.isSome

theorem TlbAgrees.of_sound (h : k.Sound pins none) : k.TlbAgrees := by
  refine {
    faithful := ?_, clean := ?_, once := ?_, apart := h.tlb.apart, tagged := ?_ }
  · intro slot hs hv
    obtain ⟨pid, ho, e, he, hstate, hro, -⟩ := h.tlb.tagged hs hv
    obtain ⟨p, hp, -, hentry⟩ := Residency.page?_eq_some_iff.1 he
    exact ⟨pid, p, _, e, ho, hp, (h.live_of_resident hp hentry hstate).2,
      (h.frames.resident he hstate).2, rfl, h.frames.numbered he, hentry, hstate, hro.symm⟩
  · intro slot hs hv
    obtain ⟨pid, ho, e, he, hstate, hro, hclean⟩ := h.tlb.tagged hs hv
    exact hclean
  · intro i j s t hs ht hsv htv ho hvpn
    obtain ⟨pid, hspid, e, he, hse, -⟩ := h.tlb.tagged (List.mem_of_getElem? hs) hsv
    obtain ⟨q, htq, e', he', hte, -⟩ := h.tlb.tagged (List.mem_of_getElem? ht) htv
    obtain rfl : pid = q := Option.some.inj (hspid.symm.trans (ho.trans htq))
    rw [hvpn, he'] at he
    cases he
    exact h.tlb.apart hs ht hsv htv (PageState.resident.inj (hse.symm.trans hte))
  · intro slot hs
    cases hv : slot.mapping.valid with
    | true =>
      obtain ⟨pid, ho, -⟩ := h.tlb.tagged hs hv
      rw [ho]
      rfl
    | false =>
      rw [h.tlb.untagged hs hv]
      rfl

/-! ## Reachable kernels -/

section Reachable

variable [BackingStore σ]

/-- In every reachable kernel of fewer than 2^32 frames, whatever failed on the way and whatever is
    pinned, frames, pool and page tables agree. -/
theorem Reachable.framesAgree (h : k.Reachable) (hsize : k.config.physPages < limit32) :
    k.FramesAgree := by
  obtain ⟨pins, hsound, -⟩ := h.sound
  exact .of_sound hsound hsize

/-- Two processes take two frames from each other, and one of them exits: frames, pool and page
    tables agree in the end. -/
theorem Reachable.framesAgree_of_steal : ∃ k : Kernel MemoryStore, k.config.physPages < limit32 ∧
    k.stats = { freeFrames := 1, ownedFrames := 1, pinnedFrames := 0, swapSlotsInUse := 1
                swapReads := 1, swapWrites := 2, pageFaults := 5, evictions := 3 } ∧
      k.FramesAgree := by
  have hrun : (boot 4 { physPages := 2, tlbSize := 1, stackPages := 2 } ({} : MemoryStore)
      [{ name := "text", firstVpn := 0, readOnly := true, pageSize := 4
         content := .data (.ofList [1, 2, 3, 4, 5]) }] [] >>= fun k =>
        (fun r => (r.2.config.physPages, r.2.stats)) <$>
        (Kernel.run [.spawn [0], .spawn [], .process 1 (.loadByte 5), .process 1 (.storeByte 9 7),
          .process 2 (.storeWord 4 9), .process 2 (.writeBytes 2 [1, 2, 3]),
          .process 1 (.loadByte 9), .process 1 .exit]).run k).toOption =
      some (2, { freeFrames := 1, ownedFrames := 1, pinnedFrames := 0, swapSlotsInUse := 1
                 swapReads := 1, swapWrites := 2, pageFaults := 5, evictions := 3 }) := by
    decide +kernel
  obtain ⟨k, hk, hshows⟩ :=
    Reachable.exists_of_run (f := fun k : Kernel MemoryStore => (k.config.physPages, k.stats)) hrun
  obtain ⟨hframes, hstats⟩ := Prod.mk.inj hshows
  have hsize : k.config.physPages < limit32 := hframes ▸ (by decide)
  have hagree : k.FramesAgree := Reachable.framesAgree hk hsize
  exact ⟨k, hsize, hstats, hagree⟩

/-- In every reachable kernel the TLB agrees with the page tables. -/
theorem Reachable.tlbAgrees (h : k.Reachable) : k.TlbAgrees := by
  obtain ⟨pins, hsound, -⟩ := h.sound
  exact .of_sound hsound

/-- Two processes use two slots, one of them for a page in a frame that was the other's: the TLB
    agrees with the page tables in the end. -/
theorem Reachable.tlbAgrees_of_share : ∃ k : Kernel MemoryStore,
    k.tlb = ⟨[⟨⟨1, 0, true, false, true, true⟩, some 2⟩, ⟨⟨2, 1, true, false, true, true⟩, some 1⟩]⟩ ∧
      k.TlbAgrees := by
  have hrun : (boot 4 { physPages := 2, tlbSize := 2, stackPages := 2 } ({} : MemoryStore)
      [{ name := "text", firstVpn := 0, readOnly := true, pageSize := 4
         content := .data (.ofList [1, 2, 3, 4, 5]) }] [] >>= fun k => (fun r => r.2.tlb) <$>
        (Kernel.run [.spawn [0], .spawn [], .process 1 (.loadByte 5), .process 1 (.storeByte 9 7),
          .process 2 (.storeWord 4 9), .process 1 (.loadByte 9)]).run k).toOption =
      some ⟨[⟨⟨1, 0, true, false, true, true⟩, some 2⟩,
        ⟨⟨2, 1, true, false, true, true⟩, some 1⟩]⟩ := by
    decide +kernel
  obtain ⟨k, hk, htlb⟩ := Reachable.exists_of_run (f := Kernel.tlb) hrun
  have hagree : k.TlbAgrees := Reachable.tlbAgrees hk
  exact ⟨k, htlb, hagree⟩

end Reachable

end Kernel

end DemandPaging
