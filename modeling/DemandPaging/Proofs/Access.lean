/-
  Instructions of a process keep the kernel sound.

  A hit only changes the bits of one slot (`touched`).  A miss is served by putting the
  mapping of the page into the TLB, where the second try finds it (`Sought`); so an
  instruction reaches the frame that its page is in, or fails.
-/
import DemandPaging.Kernel.Access
import DemandPaging.Proofs.Fault

namespace DemandPaging.Kernel

variable {σ : Type} {c : Conduct σ} {V : Violation → Prop} {pins : Frame → Nat}
  {k k' k₁ : Kernel σ} {pid : Pid} {v : Vpn} {m : Mapping} {f : Frame} {i vaddr address : Nat}
  {slot : TlbSlot} {write : Bool}

/-! ## Translating -/

/-- The kernel after an access through slot `i`, which holds `slot`. -/
def touched (k : Kernel σ) (i : Nat) (slot : TlbSlot) (write : Bool) : Kernel σ :=
  { k with
    tlb := ⟨k.tlb.slots.set i { slot with
      mapping := { slot.mapping with used := true, dirty := slot.mapping.dirty || write } }⟩ }

/-- How translating an address may end. -/
inductive Translated (pid : Pid) (vaddr : Nat) (write : Bool) (k : Kernel σ) :
    Except PagingError (Option Nat) → Kernel σ → Prop where
  | miss (hnone : k.tlb.lookup pid (pageOf k.memory.pageSize vaddr) = none) :
    Translated pid vaddr write k (.ok none) k
  | refused {i : Nat} {slot} (hslot : k.tlb.slots[i]? = some slot) (hv : slot.mapping.valid = true)
    (hvpn : slot.mapping.vpn = pageOf k.memory.pageSize vaddr) (ho : slot.owner = some pid)
    (hwrite : write = true) (hro : slot.mapping.readOnly = true) :
    Translated pid vaddr write k (.error (.readOnly (pageOf k.memory.pageSize vaddr))) k
  | hit {i : Nat} {slot} (hslot : k.tlb.slots[i]? = some slot) (hv : slot.mapping.valid = true)
    (hvpn : slot.mapping.vpn = pageOf k.memory.pageSize vaddr) (ho : slot.owner = some pid)
    (hwrite : write = true → slot.mapping.readOnly = false) :
    Translated pid vaddr write k
      (.ok (some (slot.mapping.ppn * k.memory.pageSize + offsetIn k.memory.pageSize vaddr)))
      (k.touched i slot write)

theorem ends_translate (h : k.Sound pins none)
    (hV : k.memory.pageSize < limit32 ∨ V .divisionByZero)
    {Q : Except PagingError (Option Nat) → Kernel σ → Prop}
    (hQ : ∀ r k', Translated pid vaddr write k r k' → Q r k') :
    Ends V (translate pid vaddr write).run k Q := by
  unfold translate
  rw [ends_bind, ends_get]
  dsimp only
  rw [ends_bind, ends_lift]
  refine h.ends_divisor hV fun _ => ?_
  have hsize : k.pageSize = k.memory.pageSize := rfl
  rw [hsize]
  dsimp only
  cases hlookup : k.tlb.lookup pid (pageOf k.memory.pageSize vaddr) with
  | none => exact hQ _ _ (.miss hlookup)
  | some i =>
    obtain ⟨slot, hslot, hv, hvpn, ho⟩ := Tlb.lookup_eq_some hlookup
    have hread : k.tlb.read i = .ok slot.mapping := by rw [Tlb.read, hslot]
    have hwrite : ∀ m, k.tlb.write i m = .ok ⟨k.tlb.slots.set i { slot with mapping := m }⟩ :=
      fun m => by rw [Tlb.write, hslot]
    simp only [ends_bind, ends_lift, hread, hwrite, Checked.ends_ok, ends_ite, ends_throw, ends_set,
      ends_pure]
    refine ⟨fun hro => ?_, fun hrw => hQ _ _ (.hit hslot hv hvpn ho fun hw => ?_)⟩
    · simp only [Bool.and_eq_true] at hro
      exact hQ _ _ (.refused hslot hv hvpn ho hro.1 hro.2)
    · simpa [hw] using hrw

/-- What the hardware does to a slot keeps the kernel sound. -/
theorem Sound.touched (h : k.Sound pins none) (hslot : k.tlb.slots[i]? = some slot)
    (hv : slot.mapping.valid = true) (hwrite : write = true → slot.mapping.readOnly = false) :
    (k.touched i slot write).Sound pins none := by
  have hmem : slot ∈ k.tlb.slots := List.mem_of_getElem? hslot
  obtain ⟨pid, ho, e, he, hs, hro, hclean⟩ := h.tlb.tagged hmem hv
  let m : Mapping := { slot.mapping with used := true, dirty := slot.mapping.dirty || write }
  have hb : k.residency.Backs pid m := by
    refine ⟨e, he, hs, hro, fun hro' => ?_⟩
    have hfalse : write = false := by
      cases hw : write with
      | false => rfl
      | true => exact hro'.symm.trans (hwrite hw)
    change (slot.mapping.dirty || write) = false
    rw [hclean hro', hfalse]
    rfl
  have htlb : Tlb.Coherent k.residency ⟨k.tlb.slots.set i ⟨m, some pid⟩⟩ :=
    h.tlb.set hb hv fun hj hjv hf => h.tlb.apart hj hslot hjv hv hf
  rw [← ho] at htlb
  exact ⟨h.frames, htlb, h.slots, h.memory, h.numFrames, h.swapSize, h.physPages, h.divisible, h.laid⟩

theorem keeps_touched : k.Keeps (k.touched i slot write) :=
  ⟨rfl, rfl, rfl, List.length_set, fun _ => rfl⟩

/-- An instruction has reached `address`, in the frame that its page is in. -/
structure Located (pins : Frame → Nat) (pid : Pid) (vaddr : Nat) (write : Bool) (address : Nat)
    (k k' : Kernel σ) : Prop extends Stays pins k k' where
  page : ∃ e f, k'.residency.page? pid (pageOf k.memory.pageSize vaddr) = some e ∧
    e.state = .resident f ∧ (write = true → e.readOnly = false) ∧
    address = f * k.memory.pageSize + offsetIn k.memory.pageSize vaddr

/-- The TLB leads to pages in frames only. -/
theorem Translated.resident {r : Except PagingError (Option Nat)}
    (htr : Translated pid vaddr write k r k') (h : k.Sound pins none) (hr : r ≠ .ok none) :
    ∃ e f, k.residency.page? pid (pageOf k.memory.pageSize vaddr) = some e ∧
      e.state = .resident f := by
  cases htr with
  | miss => exact absurd rfl hr
  | refused hslot hv hvpn ho =>
    obtain ⟨e, he, hs, -⟩ := h.tlb.backs (List.mem_of_getElem? hslot) hv ho
    exact ⟨e, _, hvpn ▸ he, hs⟩
  | hit hslot hv hvpn ho =>
    obtain ⟨e, he, hs, -⟩ := h.tlb.backs (List.mem_of_getElem? hslot) hv ho
    exact ⟨e, _, hvpn ▸ he, hs⟩

theorem Translated.stays {r : Except PagingError (Option Nat)}
    (htr : Translated pid vaddr write k r k') (h : k.Sound pins none) : Stays pins k k' := by
  cases htr with
  | miss | refused => exact .refl h
  | hit hslot hv _ _ hwrite => exact ⟨h.touched hslot hv hwrite, keeps_touched⟩

theorem Translated.located (h : Translated pid vaddr write k (.ok (some address)) k')
    (hk : k.Sound pins none) : Located pins pid vaddr write address k k' := by
  cases h with
  | @hit i slot hslot hv hvpn ho hwrite =>
    obtain ⟨e, he, hs, hro, -⟩ := hk.tlb.backs (List.mem_of_getElem? hslot) hv ho
    refine ⟨(Translated.hit hslot hv hvpn ho hwrite).stays hk, e, slot.mapping.ppn, hvpn ▸ he, hs,
      ?_, rfl⟩
    exact fun hw => hro.symm.trans (hwrite hw)

/-! ## Serving misses -/

/-- The kernel with `m` for process `pid` in the TLB, where `slot` has made room. -/
def loaded (k : Kernel σ) (pid : Pid) (m : Mapping) (slot : TlbSlot) : Kernel σ :=
  { k with
    tlb := ⟨k.tlb.slots.set (k.tlb.chooseSlot pid m.vpn k.choices).1 ⟨m, some pid⟩⟩
    choices := (k.tlb.chooseSlot pid m.vpn k.choices).2
    residency := k.residency.absorb [slot.mapping] }

theorem loaded_stays (h : k.Sound pins none) (hv : m.valid = true) (hb : k.residency.Backs pid m)
    (hslot : k.tlb.slots[(k.tlb.chooseSlot pid m.vpn k.choices).1]? = some slot) :
    Stays pins k (k.loaded pid m slot) :=
  ⟨h.installed hv hb hslot, Keeps.absorb List.length_set⟩

theorem lookup_loaded (hv : m.valid = true)
    (hslot : k.tlb.slots[(k.tlb.chooseSlot pid m.vpn k.choices).1]? = some slot) :
    (k.loaded pid m slot).tlb.lookup pid m.vpn ≠ none := by
  obtain ⟨hlt, -⟩ := List.getElem?_eq_some_iff.1 hslot
  have hmem : (⟨m, some pid⟩ : TlbSlot) ∈
      k.tlb.slots.set (k.tlb.chooseSlot pid m.vpn k.choices).1 ⟨m, some pid⟩ :=
    List.mem_iff_getElem?.2 ⟨_, List.getElem?_set_self hlt⟩
  exact Tlb.lookup_ne_none hmem hv rfl rfl

/-- The mapping of a page that is in a frame. -/
theorem Ready.mapping (h : Ready pins pid v m k k') :
    m.valid = true ∧ k'.residency.Backs pid m ∧ m.vpn = v := by
  obtain ⟨e, f, he, hs, rfl⟩ := h.page
  have hvpn : e.mapping.vpn = v := h.sound.frames.numbered he
  have hvalid : e.mapping.valid = true := by
    simp [PageEntry.mapping, PageEntry.isValid, PageEntry.frame, hs]
  have hppn : e.mapping.ppn = f := by simp [PageEntry.mapping, PageEntry.frame, hs]
  exact ⟨hvalid, ⟨e, hvpn.symm ▸ he, hppn.symm ▸ hs, rfl, h.sound.frames.clean he⟩, hvpn⟩

/-- How serving a TLB miss of process `pid` at page `v` may end. -/
inductive Served (c : Conduct σ) (pins : Frame → Nat) (pid : Pid) (v : Vpn) (k : Kernel σ) :
    Except PagingError Unit → Kernel σ → Prop where
  | failed {error k'} (hres : Resolved c pins pid v k (.error error) k') :
    Served c pins pid v k (.error error) k'
  | served {m : Mapping} {slot : TlbSlot} {k₁} (hres : Resolved c pins pid v k (.ok m) k₁)
    (hslot : k₁.tlb.slots[(k₁.tlb.chooseSlot pid m.vpn k₁.choices).1]? = some slot) :
    Served c pins pid v k (.ok ()) (k₁.loaded pid m slot)

theorem Served.stays {r : Except PagingError Unit} (h : Served c pins pid v k r k')
    (hk : k.Sound pins none) : Stays pins k k' := by
  cases h with
  | failed hres => exact hres.stays hk
  | served hres hslot =>
    have hready := hres.ready hk
    obtain ⟨hv, hb, -⟩ := hready.mapping
    exact hready.toStays.trans (loaded_stays hready.sound hv hb hslot)

/-- After a miss has been served the TLB has the page. -/
theorem Served.lookup (h : Served c pins pid v k (.ok ()) k') (hk : k.Sound pins none) :
    k'.tlb.lookup pid v ≠ none := by
  cases h with
  | served hres hslot =>
    obtain ⟨hv, -, hvpn⟩ := (hres.ready hk).mapping
    exact hvpn ▸ lookup_loaded hv hslot

/-- How looking for the address of an instruction may end: the process has no page there, the
    miss is not served, or the TLB has the page, at once or after the miss has been served. -/
inductive Sought (c : Conduct σ) (pins : Frame → Nat) (pid : Pid) (vaddr : Nat) (write : Bool)
    (k : Kernel σ) : Except PagingError Nat → Kernel σ → Prop where
  | exited (hdead : ∀ p, k.residency.process? pid = some p → p.exited = true) :
    Sought c pins pid vaddr write k (.error (.processExited pid)) k
  | outside {p : Process} (hp : k.residency.process? pid = some p) (hlive : p.exited = false)
    (hout : p.numPages ≤ pageOf k.memory.pageSize vaddr) :
    Sought c pins pid vaddr write k (.error (.addressOutOfRange (pageOf k.memory.pageSize vaddr))) k
  | unserved {error k'}
    (hserved : Served c pins pid (pageOf k.memory.pageSize vaddr) k (.error error) k') :
    Sought c pins pid vaddr write k (.error error) k'
  | first {r k'} (htr : Translated pid vaddr write k (r.map some) k') :
    Sought c pins pid vaddr write k r k'
  | second {k₁ r k'}
    (hserved : Served c pins pid (pageOf k.memory.pageSize vaddr) k (.ok ()) k₁)
    (htr : Translated pid vaddr write k₁ (r.map some) k') : Sought c pins pid vaddr write k r k'

theorem Sought.stays {r : Except PagingError Nat} (h : Sought c pins pid vaddr write k r k')
    (hk : k.Sound pins none) : Stays pins k k' := by
  cases h with
  | exited | outside => exact .refl hk
  | unserved hserved => exact hserved.stays hk
  | first htr => exact htr.stays hk
  | second hserved htr =>
    have hstays := hserved.stays hk
    exact hstays.trans (htr.stays hstays.sound)

theorem Sought.located (h : Sought c pins pid vaddr write k (.ok address) k')
    (hk : k.Sound pins none) : Located pins pid vaddr write address k k' := by
  cases h with
  | first htr => exact htr.located hk
  | second hserved htr =>
    have hstays := hserved.stays hk
    have hloc := htr.located hstays.sound
    refine ⟨hstays.trans hloc.toStays, ?_⟩
    rw [← hstays.keeps.pageSize]
    exact hloc.page

section Instructions

variable [BackingStore σ]

theorem ends_handleMiss (hc : Tolerated c V k) (h : k.Sound pins none)
    (hsize : 0 < k.tlb.slots.length) {Q : Except PagingError Unit → Kernel σ → Prop}
    (hQ : ∀ r k', Served c pins pid (pageOf k.memory.pageSize vaddr) k r k' → Q r k') :
    Ends V (handleMiss pid vaddr).run k Q := by
  unfold handleMiss
  rw [ends_bind, ends_get]
  dsimp only
  rw [ends_bind, ends_lift]
  refine h.ends_divisor hc.divides fun _ => ?_
  dsimp only
  rw [ends_bind]
  refine ends_resolve hc h fun r k₁ hres => ?_
  cases r with
  | error error => exact hQ _ _ (.failed hres)
  | ok m =>
    have hready := hres.ready h
    obtain ⟨hv, hb, -⟩ := hready.mapping
    have hsize₁ : 0 < k₁.tlb.slots.length := hready.keeps.tlbSize ▸ hsize
    have hlt : (k₁.tlb.chooseSlot pid m.vpn k₁.choices).1 < k₁.tlb.slots.length :=
      Tlb.chooseSlot_lt hsize₁
    have hslot := List.getElem?_eq_getElem hlt
    exact (ends_install hready.sound hv hslot).2 (hQ _ _ (.served hres hslot))

/-- A miss is served only where addresses can be divided. -/
theorem Sound.pageSize_lt_of_handleMiss {r : Except PagingError Unit} (h : k.Sound pins none)
    (hrun : (handleMiss pid vaddr).run.run k = .ok (r, k')) : k.memory.pageSize < limit32 := by
  have hends : Ends (fun _ => True) (handleMiss pid vaddr).run k fun _ _ =>
      k.memory.pageSize < limit32 := by
    unfold handleMiss
    rw [ends_bind, ends_get]
    dsimp only
    rw [ends_bind, ends_lift]
    exact h.ends_divisor (.inr trivial) fun hlt => ends_self.imp fun _ _ _ => hlt
  exact hends.of_run hrun

/-- The second try, after the miss has been served, does not miss. -/
theorem ends_userAddress_sought (hc : Tolerated c V k) (h : k.Sound pins none)
    (hsize : 0 < k.tlb.slots.length) {Q : Except PagingError Nat → Kernel σ → Prop}
    (hQ : ∀ r k', Sought c pins pid vaddr write k r k' → Q r k') :
    Ends V (userAddress pid vaddr write).run k Q := by
  unfold userAddress
  rw [ends_bind]
  refine ends_liveProcess (fun hdead => hQ _ _ (.exited hdead)) fun p hp hlive => ?_
  dsimp only
  rw [ends_bind, ends_get]
  dsimp only
  rw [ends_bind, ends_lift]
  refine h.ends_divisor hc.divides fun _ => ?_
  simp only [ends_bind, ends_ite, ends_throw]
  refine ⟨fun hout => hQ _ _ (.outside hp hlive hout), fun _ => ?_⟩
  unfold locate
  rw [ends_bind]
  refine ends_translate h hc.divides fun r k₁ htr => ?_
  rcases r with error | _ | address
  · exact hQ _ _ (.first htr)
  · cases htr
    dsimp only
    rw [ends_bind]
    refine ends_handleMiss hc h hsize fun r k₂ hserved => ?_
    cases r with
    | error error => exact hQ _ _ (.unserved hserved)
    | ok _ =>
      dsimp only
      unfold locate
      rw [ends_bind]
      have hstays := hserved.stays h
      refine ends_translate hstays.sound (hc.of_keeps hstays.keeps).divides fun r k₃ htr => ?_
      rcases r with error | _ | address
      · exact hQ _ _ (.second hserved htr)
      · cases htr with
        | miss hnone =>
          have hps : k₂.memory.pageSize = k.memory.pageSize := hstays.keeps.pageSize
          exact absurd (hps ▸ hnone) (hserved.lookup h)
      · exact hQ _ _ (.second hserved htr)
  · exact hQ _ _ (.first htr)

theorem ends_userAddress (hc : Tolerated c V k) (h : k.Sound pins none)
    (hsize : 0 < k.tlb.slots.length) {Q : Except PagingError Nat → Kernel σ → Prop}
    (hok : ∀ address k', Located pins pid vaddr write address k k' → Q (.ok address) k')
    (herror : ∀ error k', Stays pins k k' → Q (.error error) k') :
    Ends V (userAddress pid vaddr write).run k Q :=
  ends_userAddress_sought hc h hsize fun r k' hsought =>
    match r with
    | .ok address => hok address k' (hsought.located h)
    | .error error => herror error k' (hsought.stays h)

end Instructions

/-- What starts at an address that has been reached, and stays in the page, lies in memory. -/
theorem Located.place_le {address len : Nat} (h : Located pins pid vaddr write address k k')
    (hfits : offsetIn k.memory.pageSize vaddr + len ≤ k.memory.pageSize) :
    address + len ≤ k'.memory.capacity := by
  obtain ⟨e, f, he, hs, -, rfl⟩ := h.page
  have hf : f < k'.memory.numFrames :=
    h.sound.numFrames ▸ FrameTable.lt_size (h.sound.frames.resident he hs).2
  rw [← h.keeps.pageSize] at hfits ⊢
  exact PhysicalMemory.place_le hf hfits

/-- An address that has been reached lies in memory. -/
theorem Located.lt {address : Nat} (h : Located pins pid vaddr write address k k') :
    address < k'.memory.capacity := by
  have hfits : offsetIn k.memory.pageSize vaddr + 1 ≤ k.memory.pageSize :=
    Nat.mod_lt _ (h.keeps.pageSize ▸ h.sound.memory.pageSize_pos)
  exact h.place_le hfits

/-! ## Loads and stores -/

/-- What is read does not matter to the kernel. -/
theorem ends_reading_stays {α : Type} {op : PhysicalMemory → Attempt MemoryError α}
    (h : Stays pins k k') (hop : ∃ r, (op k'.memory).run = .ok r) :
    Ends V (reading (σ := σ) op).run k' fun _ k'' => Stays pins k k'' := by
  obtain ⟨r, hr⟩ := hop
  exact (ends_reading hr).2 h

/-- What is written does not matter to the kernel, as long as memory keeps its size. -/
theorem ends_writing_stays {op : PhysicalMemory → Attempt MemoryError PhysicalMemory}
    (h : Stays pins k k') (hop : ∃ r, (op k'.memory).run = .ok r ∧ ∀ memory, r = .ok memory →
      memory.Formed ∧ memory.pageSize = k'.memory.pageSize ∧
        memory.numFrames = k'.memory.numFrames) :
    Ends V (writing (σ := σ) op).run k' fun _ k'' => Stays pins k k'' := by
  obtain ⟨r, hr, hsize⟩ := hop
  cases r with
  | error error => exact (ends_writing_of_error hr).2 h
  | ok memory =>
    obtain ⟨hformed, hpage, hframes⟩ := hsize memory rfl
    refine (ends_writing hr).2 (h.trans ⟨h.sound.of_memory hformed hpage hframes, ?_⟩)
    exact ⟨rfl, rfl, hpage, rfl, fun _ => rfl⟩

theorem addressable {address len : Nat} (h : k.Sound pins none) (hlt : address < k.memory.capacity)
    (hlen : len ≤ Bytes.wordSize) : address + len < limit64 := by
  have hcap := h.memory.capacity_lt
  unfold limit63 at hcap
  unfold Bytes.wordSize at hlen
  unfold limit64
  omega

theorem checkAligned_ends {Q : Except PagingError Unit → Kernel σ → Prop}
    (hok : vaddr % Bytes.wordSize = 0 → Q (.ok ()) k)
    (herror : Q (.error (.unalignedAccess vaddr)) k) :
    Ends V (checkAligned vaddr).run k Q := by
  unfold checkAligned
  rw [ends_ite]
  exact ⟨fun _ => herror, fun hz => hok (Classical.not_not.1 hz)⟩

section Transfers

variable [BackingStore σ]

theorem loadByte_stays (hc : Tolerated c V k) (h : k.Sound pins none)
    (hsize : 0 < k.tlb.slots.length) :
    Ends V (loadByte pid vaddr).run k fun _ k' => Stays pins k k' := by
  unfold loadByte
  rw [ends_bind]
  refine ends_userAddress hc h hsize (fun address k' hloc => ?_) fun _ _ hstays => hstays
  obtain ⟨b, -, hb⟩ := PhysicalMemory.readByte_eq hloc.sound.memory hloc.lt
  exact ends_reading_stays hloc.toStays ⟨_, hb⟩

theorem storeByte_stays {b : UInt8} (hc : Tolerated c V k) (h : k.Sound pins none)
    (hsize : 0 < k.tlb.slots.length) :
    Ends V (storeByte pid vaddr b).run k fun _ k' => Stays pins k k' := by
  unfold storeByte
  rw [ends_bind]
  refine ends_userAddress hc h hsize (fun address k' hloc => ?_) fun _ _ hstays => hstays
  exact ends_writing_stays hloc.toStays (PhysicalMemory.write_returns hloc.sound.memory
    (addressable hloc.sound hloc.lt (show 1 ≤ Bytes.wordSize by decide)))

theorem loadWord_stays (hc : Tolerated c V k) (h : k.Sound pins none)
    (hsize : 0 < k.tlb.slots.length) :
    Ends V (loadWord pid vaddr).run k fun _ k' => Stays pins k k' := by
  unfold loadWord
  rw [ends_bind]
  refine checkAligned_ends (fun _ => ?_) (.refl h)
  dsimp only
  rw [ends_bind]
  refine ends_userAddress hc h hsize (fun address k' hloc => ?_) fun _ _ hstays => hstays
  exact ends_reading_stays hloc.toStays (PhysicalMemory.readWord_returns hloc.sound.memory
    (addressable hloc.sound hloc.lt (Nat.le_refl Bytes.wordSize)))

theorem storeWord_stays {w : Nat} (hc : Tolerated c V k) (h : k.Sound pins none)
    (hsize : 0 < k.tlb.slots.length) :
    Ends V (storeWord pid vaddr w).run k fun _ k' => Stays pins k k' := by
  unfold storeWord
  rw [ends_bind]
  refine checkAligned_ends (fun _ => ?_) (.refl h)
  dsimp only
  rw [ends_bind]
  refine ends_userAddress hc h hsize (fun address k' hloc => ?_) fun _ _ hstays => hstays
  exact ends_writing_stays hloc.toStays (PhysicalMemory.write_returns hloc.sound.memory
    (addressable hloc.sound hloc.lt (Nat.le_of_eq (Bytes.length_ofWord w))))

end Transfers

end DemandPaging.Kernel
