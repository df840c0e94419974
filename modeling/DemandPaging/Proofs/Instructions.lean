/-
  Loads and stores take a course.

  An instruction reaches the frame that its page is in, or fails on the way (`Reached`).  A load
  that returns has read its bytes there, a store that returns has replaced them, and one that
  fails has done neither.
-/
import DemandPaging.Proofs.Course

namespace DemandPaging

/-- The page and the offset of an address make up the address. -/
theorem pageOf_mul_add_offsetIn {pageSize vaddr : Nat} :
    pageOf pageSize vaddr * pageSize + offsetIn pageSize vaddr = vaddr :=
  Nat.div_add_mod' vaddr pageSize

/-- The addresses of a page. -/
theorem pageOf_mul_add {pageSize offset : Nat} {v : Vpn} (h : offset < pageSize) :
    pageOf pageSize (v * pageSize + offset) = v := by
  rw [pageOf, Nat.mul_comm, Nat.mul_add_div (by omega), Nat.div_eq_of_lt h, Nat.add_zero]

theorem byte_fits {pageSize vaddr : Nat} (hpos : 0 < pageSize) :
    offsetIn pageSize vaddr + 1 ≤ pageSize :=
  Nat.mod_lt _ hpos

/-- A word at a multiple of its size stays inside its page. -/
theorem word_fits {pageSize vaddr : Nat} (hpos : 0 < pageSize) (hsize : Bytes.wordSize ∣ pageSize)
    (hvaddr : vaddr % Bytes.wordSize = 0) :
    offsetIn pageSize vaddr + Bytes.wordSize ≤ pageSize := by
  obtain ⟨q, rfl⟩ := hsize
  obtain ⟨m, rfl⟩ := Nat.dvd_of_mod_eq_zero hvaddr
  have hlt : m % q < q := Nat.mod_lt m (Nat.pos_of_mul_pos_left hpos)
  rw [offsetIn, Nat.mul_mod_mul_left, ← Nat.mul_succ]
  exact Nat.mul_le_mul_left _ hlt

namespace Kernel

variable {σ : Type} {c : Conduct σ} {V : Violation → Prop} {pins : Frame → Nat}
  {k k' k₁ k₂ : Kernel σ} {pid : Pid} {f : Frame} {vaddr len : Nat} {write : Bool} {bytes : Bytes}

/-! ## Reaching an address -/

/-- How an instruction may get to its address: it fails before it has access to a page, or it
    has access to the page of the address. -/
inductive Reached (c : Conduct σ) (pins : Frame → Nat) (pid : Pid) (vaddr : Nat) (write : Bool)
    (k : Kernel σ) : Except PagingError Nat → Kernel σ → Prop where
  | failed {error k'} (hcourse : Course c pins k [] k') :
    Reached c pins pid vaddr write k (.error error) k'
  | found {f : Frame} {k₁ k'} (hcourse : Course c pins k [] k₁)
    (hacc : Accessed pins pid (pageOf k.memory.pageSize vaddr) f write k₁ k') :
    Reached c pins pid vaddr write k
      (.ok (f * k.memory.pageSize + offsetIn k.memory.pageSize vaddr)) k'

/-- A translation that is refused changes nothing. -/
theorem Translated.eq_of_error {error : PagingError}
    (htr : Translated pid vaddr write k (.error error) k') : k' = k := by
  cases htr
  rfl

/-- A hit, after the course up to it. -/
theorem Translated.reached {address : Nat} (hcourse : Course c pins k [] k₁)
    (hsize : k₁.memory.pageSize = k.memory.pageSize)
    (htr : Translated pid vaddr write k₁ (.ok (some address)) k') (h : k₁.Sound pins none) :
    Reached c pins pid vaddr write k (.ok address) k' := by
  cases htr with
  | hit hslot hv hvpn ho hwrite =>
    rw [hsize] at hvpn ⊢
    exact .found hcourse (.hit h hslot hv ho hvpn rfl hwrite)

theorem Sought.reached {r : Except PagingError Nat} (hsought : Sought c pins pid vaddr write k r k')
    (h : k.Sound pins none) : Reached c pins pid vaddr write k r k' := by
  cases hsought with
  | exited | outside => exact .failed .start
  | unserved hserved => exact .failed (hserved.course h)
  | first htr =>
    cases r with
    | error error => exact htr.eq_of_error ▸ .failed .start
    | ok address => exact htr.reached .start rfl h
  | second hserved htr =>
    have hcourse := hserved.course h
    have hstays := hserved.stays h
    cases r with
    | error error => exact htr.eq_of_error ▸ .failed hcourse
    | ok address => exact htr.reached hcourse hstays.keeps.pageSize hstays.sound

theorem ends_userAddress_reached [BackingStore σ] (hc : Tolerated c V k) (h : k.Sound pins none)
    (hsize : 0 < k.tlb.slots.length) {Q : Except PagingError Nat → Kernel σ → Prop}
    (hQ : ∀ r k', Reached c pins pid vaddr write k r k' → Q r k') :
    Ends V (userAddress pid vaddr write).run k Q :=
  ends_userAddress_sought hc h hsize fun r k' hsought => hQ r k' (hsought.reached h)

/-! ## Moving bytes -/

/-- What lies at a place in a frame lies there in memory. -/
theorem slice_frameBytes {mem : PhysicalMemory} {offset : Nat} (hfits : offset + len ≤ mem.pageSize) :
    Bytes.slice (mem.frameBytes f) offset len =
      Bytes.slice mem.bytes.toList (f * mem.pageSize + offset) len :=
  Bytes.slice_slice hfits

/-- A load at `vaddr`, once its page has been reached. -/
theorem Course.load (hcourse : Course c pins k [] k₁)
    (hacc : Accessed pins pid (pageOf k.memory.pageSize vaddr) f false k₁ k')
    (hfits : offsetIn k.memory.pageSize vaddr + len ≤ k.memory.pageSize) :
    Course c pins k [⟨pid, vaddr, Bytes.slice k'.memory.bytes.toList
      (f * k.memory.pageSize + offsetIn k.memory.pageSize vaddr) len, false⟩] k' := by
  have hsize := hcourse.same.pageSize
  have hread := hcourse.read hacc (hsize.symm ▸ hfits)
  rw [slice_frameBytes (hsize.symm ▸ hfits), hsize, pageOf_mul_add_offsetIn, ← hacc.memory] at hread
  exact hread

/-- A store at `vaddr`, once its page has been reached. -/
theorem Course.store (hcourse : Course c pins k [] k₁)
    (hacc : Accessed pins pid (pageOf k.memory.pageSize vaddr) f true k₁ k')
    (hsome : 0 < bytes.length)
    (hfits : offsetIn k.memory.pageSize vaddr + bytes.length ≤ k.memory.pageSize) :
    Course c pins k [⟨pid, vaddr, bytes, true⟩] { k' with
      memory := k'.memory.patch (f * k.memory.pageSize + offsetIn k.memory.pageSize vaddr) bytes } := by
  have hsize := hcourse.same.pageSize
  have hwrote := hcourse.wrote hacc hsome (hsize.symm ▸ hfits)
  rw [hsize, pageOf_mul_add_offsetIn] at hwrote
  rw [hacc.memory]
  exact hwrote

/-- The place that an instruction has reached lies in memory. -/
theorem Accessed.place_le {v : Vpn} {offset : Nat} (hacc : Accessed pins pid v f write k₁ k')
    (hfits : offset + len ≤ k₁.memory.pageSize) :
    f * k₁.memory.pageSize + offset + len ≤ k'.memory.capacity := by
  rw [hacc.memory]
  exact PhysicalMemory.place_le hacc.frame_lt hfits

theorem Reached.place_le {address : Nat}
    (hreach : Reached c pins pid vaddr write k (.ok address) k')
    (hfits : offsetIn k.memory.pageSize vaddr + len ≤ k.memory.pageSize) :
    address + len ≤ k'.memory.capacity := by
  cases hreach with
  | found hcourse hacc =>
    have hps := hcourse.same.pageSize
    have hin := hacc.place_le (hps.symm ▸ hfits)
    rwa [hps] at hin

section Transfers

variable [BackingStore σ]

theorem ends_loadByte (hc : Tolerated c V k) (h : k.Sound pins none)
    (hsize : 0 < k.tlb.slots.length) {Q : Except PagingError UInt8 → Kernel σ → Prop}
    (hok : ∀ b k', Course c pins k [⟨pid, vaddr, [b], false⟩] k' → Q (.ok b) k')
    (herror : ∀ e k', Course c pins k [] k' → Q (.error e) k') :
    Ends V (loadByte pid vaddr).run k Q := by
  unfold loadByte
  rw [ends_bind]
  refine ends_userAddress_reached hc h hsize fun r k' hreach => ?_
  cases hreach with
  | failed hcourse => exact herror _ _ hcourse
  | @found f k₁ _ hcourse hacc =>
    have hfits : offsetIn k.memory.pageSize vaddr + 1 ≤ _ := byte_fits h.memory.pageSize_pos
    have hin := Reached.place_le (.found hcourse hacc) hfits
    obtain ⟨b, hb, hread⟩ := PhysicalMemory.readByte_eq hacc.stays.sound.memory hin
    refine (ends_reading hread).2 ?_
    change Q (.ok b) k'
    have hload := hcourse.load hacc hfits
    have hslice : Bytes.slice k'.memory.bytes.toList
        (f * k.memory.pageSize + offsetIn k.memory.pageSize vaddr) 1 = [b] := by
      rw [Bytes.slice, List.take_one, List.head?_drop, hb]
      rfl
    rw [hslice] at hload
    exact hok b k' hload

/-- A store whose bytes fit into the page. -/
theorem ends_store (hc : Tolerated c V k) (h : k.Sound pins none)
    (hsize : 0 < k.tlb.slots.length) (hsome : 0 < bytes.length)
    (hfits : offsetIn k.memory.pageSize vaddr + bytes.length ≤ k.memory.pageSize)
    {Q : Except PagingError Unit → Kernel σ → Prop}
    (hok : ∀ k', Course c pins k [⟨pid, vaddr, bytes, true⟩] k' → Q (.ok ()) k')
    (herror : ∀ e k', Course c pins k [] k' → Q (.error e) k') :
    Ends V (userAddress pid vaddr true >>= fun address =>
      writing (·.write address bytes) : KernelM σ Unit).run k Q := by
  rw [ends_bind]
  refine ends_userAddress_reached hc h hsize fun r k' hreach => ?_
  cases hreach with
  | failed hcourse => exact herror _ _ hcourse
  | @found f k₁ _ hcourse hacc =>
    have hin := Reached.place_le (.found hcourse hacc) hfits
    refine (ends_writing (PhysicalMemory.write_eq hacc.stays.sound.memory hin)).2 (hok _ ?_)
    exact hcourse.store hacc hsome hfits

theorem ends_storeByte {b : UInt8} (hc : Tolerated c V k) (h : k.Sound pins none)
    (hsize : 0 < k.tlb.slots.length) {Q : Except PagingError Unit → Kernel σ → Prop}
    (hok : ∀ k', Course c pins k [⟨pid, vaddr, [b], true⟩] k' → Q (.ok ()) k')
    (herror : ∀ e k', Course c pins k [] k' → Q (.error e) k') :
    Ends V (storeByte pid vaddr b).run k Q := by
  have hsome : 0 < [b].length := Nat.one_pos
  exact ends_store hc h hsize hsome (byte_fits h.memory.pageSize_pos) hok herror

/-- The bytes of a word that has been loaded are those of its page, if they fit there. -/
theorem ends_loadWord (hc : Tolerated c V k) (h : k.Sound pins none)
    (hsize : 0 < k.tlb.slots.length) {Q : Except PagingError Nat → Kernel σ → Prop}
    (hok : ∀ w k' log, Course c pins k log k' → (Bytes.wordSize ∣ k.memory.pageSize →
      ∃ bytes, bytes.length = Bytes.wordSize ∧ w = Bytes.word bytes ∧
        log = [⟨pid, vaddr, bytes, false⟩]) → Q (.ok w) k')
    (herror : ∀ e k' log, Course c pins k log k' →
      (Bytes.wordSize ∣ k.memory.pageSize → log = []) → Q (.error e) k') :
    Ends V (loadWord pid vaddr).run k Q := by
  unfold loadWord
  rw [ends_bind]
  refine checkAligned_ends (fun halign => ?_) (herror _ _ [] .start fun _ => rfl)
  dsimp only
  rw [ends_bind]
  refine ends_userAddress_reached hc h hsize fun r k' hreach => ?_
  cases hreach with
  | failed hcourse => exact herror _ _ [] hcourse fun _ => rfl
  | @found f k₁ _ hcourse hacc =>
    have hpos := h.memory.pageSize_pos
    dsimp only
    by_cases hdvd : Bytes.wordSize ∣ k.memory.pageSize
    · have hfits := word_fits hpos hdvd halign
      have hin := Reached.place_le (.found hcourse hacc) hfits
      refine (ends_reading (PhysicalMemory.readWord_eq hacc.stays.sound.memory hin)).2 ?_
      have hload := hcourse.load hacc hfits
      refine hok _ _ _ hload fun _ => ⟨_, Bytes.length_slice _ _ _ ?_, rfl, rfl⟩
      rwa [hacc.stays.sound.memory.length]
    · -- the word may lie across two frames, or past the last one
      have hempty : 0 + 0 ≤ k₁.memory.pageSize := Nat.zero_le _
      have hnone := hcourse.read hacc hempty
      have hlt := Reached.place_le (.found hcourse hacc) (byte_fits hpos)
      obtain ⟨r, hword⟩ := PhysicalMemory.readWord_returns hacc.stays.sound.memory
        (addressable hacc.stays.sound hlt (Nat.le_refl Bytes.wordSize))
      refine (ends_reading hword).2 ?_
      cases r with
      | error error => exact herror _ _ _ hnone fun hdvd' => absurd hdvd' hdvd
      | ok w => exact hok _ _ _ hnone fun hdvd' => absurd hdvd' hdvd

theorem ends_storeWord {w : Nat} (hc : Tolerated c V k) (h : k.Sound pins none)
    (hsize : 0 < k.tlb.slots.length) {Q : Except PagingError Unit → Kernel σ → Prop}
    (hok : ∀ k' log, Course c pins k log k' → (Bytes.wordSize ∣ k.memory.pageSize →
      log = [⟨pid, vaddr, Bytes.ofWord w, true⟩]) → Q (.ok ()) k')
    (herror : ∀ e k', Course c pins k [] k' → Q (.error e) k') :
    Ends V (storeWord pid vaddr w).run k Q := by
  unfold storeWord
  rw [ends_bind]
  refine checkAligned_ends (fun halign => ?_) (herror _ _ .start)
  by_cases hdvd : Bytes.wordSize ∣ k.memory.pageSize
  · have hfits : offsetIn k.memory.pageSize vaddr + (Bytes.ofWord w).length ≤ k.memory.pageSize :=
      word_fits h.memory.pageSize_pos hdvd halign
    have hsome : 0 < (Bytes.ofWord w).length := Nat.succ_pos _
    exact ends_store hc h hsize hsome hfits (fun k' hcourse => hok k' _ hcourse fun _ => rfl) herror
  · dsimp only
    rw [ends_bind]
    refine ends_userAddress_reached hc h hsize fun r k' hreach => ?_
    cases hreach with
    | failed hcourse => exact herror _ _ hcourse
    | @found f k₁ _ hcourse hacc =>
      have hps := hcourse.same.pageSize
      have hlt := Reached.place_le (.found hcourse hacc) (byte_fits h.memory.pageSize_pos)
      have hsmall : ¬ Bytes.wordSize ∣ k₁.memory.pageSize := hps.symm ▸ hdvd
      obtain ⟨r, hr, hdone⟩ := PhysicalMemory.write_returns hacc.stays.sound.memory
        (addressable hacc.stays.sound hlt (Nat.le_of_eq (Bytes.length_ofWord w)))
      cases r with
      | error error =>
        refine (ends_writing_of_error hr).2 (herror _ _ ?_)
        have hspill := hcourse.spilled hsmall hacc hacc.stays.sound.memory
          (congrArg PhysicalMemory.pageSize hacc.memory)
          (congrArg PhysicalMemory.numFrames hacc.memory)
        exact hspill
      | ok memory =>
        obtain ⟨hformed, hsame, hframes⟩ := hdone memory rfl
        rw [hacc.memory] at hsame hframes
        have hspill := hcourse.spilled hsmall hacc hformed hsame hframes
        exact (ends_writing hr).2 (hok _ _ hspill fun hdvd' => absurd hdvd' hdvd)

end Transfers

end Kernel

end DemandPaging
