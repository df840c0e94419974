/-
  Words are four bytes of their page.

  The frame of a page is one run of bytes, and a word goes to memory in one transfer.  If the size
  of a page is a multiple of that of a word, an aligned word ends in the page that it starts in:
  then its bytes are those that byte loads load (`ends_loadWord_bytes`), and a store replaces these
  four bytes of one address space (`ends_storeWord_byteAt?`).

  * `Reachable.wordsWithin`: so it is on every machine whose pages have room for a word;
  * `Reachable.words_spill`: on a machine with smaller pages it is not, since the next frame in
    memory may have a page of somebody else.
-/
import DemandPaging.Proofs.AddressSpaces
import DemandPaging.Proofs.Simulation

namespace DemandPaging

/-! ## Addresses of one page -/

section Addresses

variable {pageSize vaddr i : Nat}

/-- An address behind `vaddr`, seen from the page of `vaddr`. -/
theorem add_eq_pageOf_mul_add :
    vaddr + i = pageOf pageSize vaddr * pageSize + (offsetIn pageSize vaddr + i) := by
  rw [← Nat.add_assoc, pageOf_mul_add_offsetIn]

theorem pageOf_add (h : offsetIn pageSize vaddr + i < pageSize) :
    pageOf pageSize (vaddr + i) = pageOf pageSize vaddr := by
  rw [add_eq_pageOf_mul_add, pageOf_mul_add h]

theorem offsetIn_add (h : offsetIn pageSize vaddr + i < pageSize) :
    offsetIn pageSize (vaddr + i) = offsetIn pageSize vaddr + i := by
  rw [add_eq_pageOf_mul_add, offsetIn, Nat.mul_add_mod_self_right, Nat.mod_eq_of_lt h]

end Addresses

namespace Kernel

variable {σ : Type} {content : σ → Nat → UInt8} {c : Conduct σ} {V : Violation → Prop}
  {pins : Frame → Nat} {k k' : Kernel σ} {pid : Pid} {vaddr i w : Nat} {write : Bool}

/-! ## Instructions on one page -/

/-- Every address of a page is translated in the same way. -/
theorem translate_tracks (hk : k.Sound pins none)
    (h : offsetIn k.memory.pageSize vaddr + i < k.memory.pageSize) :
    Tracks id (Option.map (· + i)) (translate pid vaddr write) (translate pid (vaddr + i) write)
      k := by
  unfold translate
  refine follows_get (follows_lift (w := id) (id_map _).symm fun size hdiv => ?_)
  obtain ⟨rfl, -⟩ := hk.divisor_eq_ok hdiv
  simp only [id, Kernel.pageSize, pageOf_add h, offsetIn_add h, ← Nat.add_assoc]
  cases k.tlb.lookup pid (pageOf k.memory.pageSize vaddr) with
  | none => exact follows_pure rfl
  | some slot =>
    refine follows_lift (w := id) (id_map _).symm fun m _ => ?_
    refine follows_ite (fun _ => follows_throw) fun _ => ?_
    refine follows_lift (w := id) (id_map _).symm fun tlb _ => ?_
    exact follows_set rfl (follows_pure rfl)

section Instructions

variable [BackingStore σ]

theorem handleMiss_tracks (hk : k.Sound pins none)
    (h : offsetIn k.memory.pageSize vaddr + i < k.memory.pageSize) :
    Tracks id id (handleMiss pid vaddr) (handleMiss pid (vaddr + i)) k := by
  unfold handleMiss
  refine follows_get (follows_lift (w := id) (id_map _).symm fun size hdiv => ?_)
  obtain ⟨rfl, -⟩ := hk.divisor_eq_ok hdiv
  simp only [id, pageOf_add h]
  exact follows_self

/-- An instruction goes the same way to all addresses of a page. -/
theorem userAddress_tracks (hk : k.Sound pins none) (htlb : 0 < k.tlb.slots.length)
    (h : offsetIn k.memory.pageSize vaddr + i < k.memory.pageSize) :
    Tracks id (· + i) (userAddress pid vaddr write) (userAddress pid (vaddr + i) write) k := by
  unfold userAddress
  have hlive : Ends (fun _ => True) (liveProcess (σ := σ) pid).run k fun _ k' => k' = k :=
    ends_liveProcess (fun _ => rfl) fun _ _ _ => rfl
  refine follows_bind_ends follows_self hlive ?_
  rintro p k rfl
  refine follows_get (follows_lift (w := id) (id_map _).symm fun size hdiv => ?_)
  obtain ⟨rfl, -⟩ := hk.divisor_eq_ok hdiv
  simp only [id, pageOf_add h]
  refine follows_ite (fun _ => follows_throw) fun _ => ?_
  unfold locate
  refine follows_bind_ends (translate_tracks hk h)
    (ends_translate hk (.inr trivial) fun _ _ htr => htr) ?_
  intro o k₁ htr
  cases htr with
  | hit => exact follows_pure rfl
  | miss =>
    have hserved : Ends (fun _ => True) (handleMiss pid vaddr).run k fun _ k' => Stays pins k k' :=
      ends_handleMiss .any hk htlb fun _ _ hserved => hserved.stays hk
    refine follows_bind_ends (handleMiss_tracks hk h) hserved fun _ k₂ hstays => ?_
    have h₂ : offsetIn k₂.memory.pageSize vaddr + i < k₂.memory.pageSize := by
      rwa [hstays.keeps.pageSize]
    unfold locate
    refine follows_bind (translate_tracks hstays.sound h₂) fun o k₃ _ => ?_
    cases o with
    | some address => exact follows_pure rfl
    | none => rfl

end Instructions

/-! ## Bytes and words -/

/-- What an instruction that has reached an address finds there is in the address space. -/
theorem Reached.byteAt? {address : Nat}
    (hreach : Reached (arrayConduct content) pins pid vaddr write k (.ok address) k')
    (hkeeps : k.Keeps k') (h : k.Original content) (hwords : Bytes.wordSize ∣ k.memory.pageSize) :
    k.byteAt? content pid vaddr = k'.memory.bytes.toList[address]? := by
  cases hreach with
  | @found f k₁ _ hcourse hacc =>
    have hps := hcourse.same.pageSize
    have hbefore := hcourse.byteAt?_eq (hkeeps.trans hacc.stays.keeps.symm) h hwords
    have hin : offsetIn k.memory.pageSize vaddr < k.memory.pageSize :=
      byte_fits (hps ▸ hacc.sound_before.memory.pageSize_pos)
    rw [← hbefore, Kernel.byteAt?, hps, hacc.pageBytes?_frame, Option.bind_some,
      PhysicalMemory.frameBytes, hps, Bytes.getElem?_slice, if_pos hin, hacc.memory]

section Accesses

variable [BackingStore σ]

/-- An instruction that reaches its address has kept the kernel as it is, on the way. -/
theorem ends_userAddress_stays (hc : Tolerated c V k) (hk : k.Sound pins none)
    (htlb : 0 < k.tlb.slots.length) : Ends V (userAddress pid vaddr write).run k fun r k' =>
      Reached c pins pid vaddr write k r k' ∧ Stays pins k k' :=
  (ends_userAddress_reached hc hk htlb fun _ _ hreach => hreach).and
    (ends_userAddress hc hk htlb (fun _ _ hloc => hloc.toStays) fun _ _ hstays => hstays)

/-- Where an instruction finds the first of some bytes of a page, byte loads find the others. -/
theorem loadByte_of_userAddress {address : Nat} {b : UInt8} (hk : k.Sound pins none)
    (htlb : 0 < k.tlb.slots.length) (hin : offsetIn k.memory.pageSize vaddr + i < k.memory.pageSize)
    (hrun : (userAddress pid vaddr false).run.run k = .ok (.ok address, k'))
    (hmem : k'.memory.Formed) (hthere : address + i + 1 ≤ k'.memory.capacity)
    (hb : k'.memory.bytes.toList[address + i]? = some b) :
    (loadByte pid (vaddr + i)).run.run k = .ok (.ok b, k') := by
  have htrack : (userAddress pid (vaddr + i) false).run.run k = _ := userAddress_tracks hk htlb hin
  rw [hrun] at htrack
  have hends : Ends (fun _ => False) (loadByte pid (vaddr + i)).run k fun r s =>
      r = .ok b ∧ s = k' := by
    unfold loadByte
    rw [ends_bind]
    refine (ends_of_run htrack).2 ?_
    obtain ⟨b', hb', hread⟩ := PhysicalMemory.readByte_eq hmem hthere
    cases hb.symm.trans hb'
    exact (ends_reading hread).2 ⟨rfl, rfl⟩
  obtain ⟨_, _, hdone, rfl, rfl⟩ := ends_iff_eq_ok.1 hends
  exact hdone

/-- A word that is loaded is spelt by the bytes that loads of bytes would load. -/
theorem ends_loadWord_bytes (hk : k.Sound pins none) (htlb : 0 < k.tlb.slots.length)
    (hwords : Bytes.wordSize ∣ k.memory.pageSize) :
    Ends (fun _ => True) (loadWord pid vaddr).run k fun r k' => ∀ w, r = .ok w →
      ∃ bytes, bytes.length = Bytes.wordSize ∧ w = Bytes.word bytes ∧ ∀ i b, bytes[i]? = some b →
        (loadByte pid (vaddr + i)).run.run k = .ok (.ok b, k') := by
  unfold loadWord
  rw [ends_bind]
  refine checkAligned_ends (fun halign => ?_) fun _ hr => nomatch hr
  dsimp only
  rw [ends_bind]
  refine (ends_userAddress_stays .any hk htlb).with_run.imp ?_
  rintro r k' ⟨⟨hreach, hstays⟩, hrun⟩
  cases r with
  | error e => exact fun _ hr => nomatch hr
  | ok address =>
    have hfits := word_fits hk.memory.pageSize_pos hwords halign
    have hin := hreach.place_le hfits
    have hmem := hstays.sound.memory
    refine (ends_reading (PhysicalMemory.readWord_eq hmem hin)).2 ?_
    rintro _ ⟨⟩
    have hlen := Bytes.length_slice k'.memory.bytes.toList _ _ (by rwa [hmem.length])
    refine ⟨_, hlen, rfl, fun i b hb => ?_⟩
    have hi : i < Bytes.wordSize := hlen ▸ (List.getElem?_eq_some_iff.1 hb).1
    rw [Bytes.getElem?_slice, if_pos hi] at hb
    have hplace := Nat.lt_of_lt_of_le (Nat.add_lt_add_left hi _) hfits
    have hthere := Nat.le_trans (Nat.add_le_add_left (Nat.succ_le_of_lt hi) address) hin
    exact loadByte_of_userAddress hk htlb hplace hrun hmem hthere hb

/-- A byte that is loaded is in the address space. -/
theorem ends_loadByte_byteAt? (hc : Tolerated (arrayConduct content) V k) (hk : k.Sound pins none)
    (htlb : 0 < k.tlb.slots.length) (h : k.Original content)
    (hwords : Bytes.wordSize ∣ k.memory.pageSize) :
    Ends V (loadByte pid vaddr).run k fun r _ => ∀ b, r = .ok b →
      k.byteAt? content pid vaddr = some b := by
  unfold loadByte
  rw [ends_bind]
  refine (ends_userAddress_stays hc hk htlb).imp ?_
  rintro r k' ⟨hreach, hstays⟩
  cases r with
  | error e => exact fun _ hr => nomatch hr
  | ok address =>
    have hin := hreach.place_le (byte_fits hk.memory.pageSize_pos)
    obtain ⟨b, hb, hread⟩ := PhysicalMemory.readByte_eq hstays.sound.memory hin
    refine (ends_reading hread).2 ?_
    rintro _ ⟨⟩
    exact (hreach.byteAt? hstays.keeps h hwords).trans hb

/-- A word that is stored takes the place of four bytes of the address space. -/
theorem ends_storeWord_byteAt? (hc : Tolerated (arrayConduct content) V k) (hk : k.Sound pins none)
    (htlb : 0 < k.tlb.slots.length) (h : k.Original content)
    (hwords : Bytes.wordSize ∣ k.memory.pageSize) :
    Ends V (storeWord pid vaddr w).run k fun r k' => r = .ok () →
      k'.byteAt? content = (k.byteAt? content).put pid vaddr (Bytes.ofWord w) := by
  unfold storeWord
  rw [ends_bind]
  refine checkAligned_ends (fun halign => ?_) fun hr => nomatch hr
  dsimp only
  rw [ends_bind]
  refine (ends_userAddress_stays hc hk htlb).imp ?_
  rintro r k' ⟨hreach, hstays⟩
  cases hreach with
  | failed => exact fun hr => nomatch hr
  | @found f k₁ _ hcourse hacc =>
    have hps := hcourse.same.pageSize
    have hfits : offsetIn k.memory.pageSize vaddr + (Bytes.ofWord w).length ≤ k.memory.pageSize :=
      word_fits hk.memory.pageSize_pos hwords halign
    have hin := Reached.place_le (.found hcourse hacc) hfits
    refine (ends_writing (PhysicalMemory.write_eq hstays.sound.memory hin)).2 fun _ => ?_
    have hput : Kernel.byteAt? content _ = _ := hacc.byteAt?_patch (hps.symm ▸ hfits)
    have hbefore := hcourse.byteAt?_eq (hstays.keeps.trans hacc.stays.keeps.symm) h hwords
    rw [hps, pageOf_mul_add_offsetIn, hbefore, ← hacc.memory] at hput
    exact hput

/-! ## Word accesses -/

/-- Words of process `pid` at `vaddr` are four bytes of its address space, and nothing else. -/
structure WordsWithin (content : σ → Nat → UInt8) (k : Kernel σ) (pid : Pid) (vaddr : Nat) :
    Prop where
  /-- A byte load that returns, loads what the address space of its process has there. -/
  loadByte : ∀ {q a b k'}, (Kernel.loadByte q a).run.run k = .ok (.ok b, k') →
    k.byteAt? content q a = some b
  /-- A word load that returns, loads the word of the bytes that byte loads would load. -/
  loadWord : ∀ {w k'}, (Kernel.loadWord pid vaddr).run.run k = .ok (.ok w, k') →
    ∃ bytes, bytes.length = Bytes.wordSize ∧ w = Bytes.word bytes ∧ ∀ i b, bytes[i]? = some b →
      (Kernel.loadByte pid (vaddr + i)).run.run k = .ok (.ok b, k')
  /-- A word store that returns, replaces the four bytes, and no other byte of any process. -/
  storeWord : ∀ {w k'}, (Kernel.storeWord pid vaddr w).run.run k = .ok (.ok (), k') →
    k'.byteAt? content = (k.byteAt? content).put pid vaddr (Bytes.ofWord w)

/-- On a machine whose pages have room for a word, no word leaves the page that it starts in. -/
theorem Reachable.wordsWithin (h : k.Reachable) (hstore : IsArray (fun _ => True) content)
    (hsize : Bytes.wordSize ≤ k.pageSize) : k.WordsWithin content pid vaddr := by
  obtain ⟨pins, hk, htlb⟩ := h.sound
  have hwords := h.words hsize
  have horiginal := h.original hstore hwords
  have hc : Tolerated (arrayConduct content) (fun _ => True) k := .of_holds hstore.holds
  constructor
  · intro q a b k' hrun
    exact (ends_loadByte_byteAt? hc hk htlb horiginal hwords).of_run hrun b rfl
  · intro w k' hrun
    exact (ends_loadWord_bytes hk htlb hwords).of_run hrun w rfl
  · intro w k' hrun
    exact (ends_storeWord_byteAt? hc hk htlb horiginal hwords).of_run hrun rfl

/-- Two processes share one frame.  The word of the first process is found in swap. -/
theorem Reachable.wordsWithin_of_swap : ∃ k : Kernel MemoryStore,
    (k.residency.page? 1 0).map (·.state) = some (.swapped 0) ∧
      answer? (loadWord 1 0) k = some 0x01020304 ∧ k.WordsWithin MemoryStore.content 1 0 := by
  have hrun : (boot 4 { physPages := 1, tlbSize := 1, stackPages := 2 } ({} : MemoryStore) [] [] >>=
      fun k => (fun r => (r.2.pageSize, (r.2.residency.page? 1 0).map (·.state),
        answer? (loadWord 1 0) r.2)) <$> (Kernel.run [.spawn [], .spawn [],
          .process 1 (.storeWord 0 0x01020304), .process 2 (.storeByte 1 9)]).run k).toOption =
            some (4, some (.swapped 0), some 0x01020304) := by
    decide +kernel
  obtain ⟨k, hk, hshows⟩ : ∃ k : Kernel MemoryStore, k.Reachable ∧
      (k.pageSize, (k.residency.page? 1 0).map (·.state), answer? (loadWord 1 0) k) =
        (4, some (.swapped 0), some 0x01020304) := Reachable.exists_of_run hrun
  simp only [Prod.mk.injEq] at hshows
  obtain ⟨hsize, hpage, hword⟩ := hshows
  have hwithin : k.WordsWithin MemoryStore.content 1 0 :=
    Reachable.wordsWithin hk MemoryStore.isArray (Nat.le_of_eq hsize.symm)
  exact ⟨k, hpage, hword, hwithin⟩

/-- Pages of one byte: the frame of process 2 lies behind the first frame of process 1.  The word
    of process 1 has the byte 7 of process 2 in it, and is stored over this byte. -/
theorem Reachable.words_spill : ∃ k : Kernel MemoryStore, k.Reachable ∧ k.pageSize = 1 ∧
    (answer? (loadWord 1 0) k = some 0x00070000 ∧ ∀ i < 4, answer? (loadByte 1 i) k = some 0) ∧
    (answer? (loadByte 2 0) k = some 7 ∧
      answer? (storeWord 1 0 0x01020304 >>= fun _ => loadByte 2 0) k = some 2) ∧
    ¬ k.WordsWithin MemoryStore.content 1 0 := by
  have hrun : (boot 1 { physPages := 8, tlbSize := 8, stackPages := 4 } ({} : MemoryStore) [] [] >>=
      fun k => (fun r => ((r.2.pageSize, answer? (loadWord 1 0) r.2,
        (List.range 4).map fun i => answer? (loadByte 1 i) r.2), answer? (loadByte 2 0) r.2,
        answer? (storeWord 1 0 0x01020304 >>= fun _ => loadByte 2 0) r.2)) <$>
          (Kernel.run [.spawn [], .spawn [], .process 1 (.loadByte 0), .process 2 (.storeByte 0 7),
            .process 1 (.loadByte 1), .process 1 (.loadByte 2),
            .process 1 (.loadByte 3)]).run k).toOption =
              some ((1, some 0x00070000, List.replicate 4 (some 0)), some 7, some 2) := by
    decide +kernel
  obtain ⟨k, hk, hshows⟩ : ∃ k : Kernel MemoryStore, k.Reachable ∧ ((k.pageSize,
      answer? (loadWord 1 0) k, (List.range 4).map fun i => answer? (loadByte 1 i) k),
      answer? (loadByte 2 0) k, answer? (storeWord 1 0 0x01020304 >>= fun _ => loadByte 2 0) k) =
        ((1, some 0x00070000, List.replicate 4 (some 0)), some 7, some 2) :=
    Reachable.exists_of_run hrun
  simp only [Prod.mk.injEq] at hshows
  obtain ⟨⟨hsize, hword, hbytes⟩, hbefore, hafter⟩ := hshows
  have hzero : ∀ i < 4, answer? (loadByte 1 i) k = some 0 := fun i hi =>
    List.map_eq_replicate_iff.1 (hbytes.trans (by rw [List.length_range])) i (List.mem_range.2 hi)
  refine ⟨k, hk, hsize, ⟨hword, hzero⟩, ⟨hbefore, hafter⟩, fun hwithin => ?_⟩
  obtain ⟨k', hrun'⟩ := answer?_eq_some.1 hword
  obtain ⟨bytes, hlen, hspelt, hloads⟩ := hwithin.loadWord hrun'
  have hzeros : bytes = List.replicate 4 0 := by
    refine List.eq_replicate_iff.2 ⟨hlen, fun b hb => ?_⟩
    obtain ⟨i, hi⟩ := List.mem_iff_getElem?.1 hb
    have hlt : i < Bytes.wordSize := hlen ▸ (List.getElem?_eq_some_iff.1 hi).1
    have hloaded := answer?_eq_some.2 ⟨k', hloads i b hi⟩
    rw [Nat.zero_add, hzero i hlt] at hloaded
    exact (Option.some.inj hloaded).symm
  rw [hzeros] at hspelt
  exact absurd hspelt (by decide)

end Accesses

end Kernel

end DemandPaging
