/-
  Requests give back the pins that they take.

  The ledger of pins that a kernel is sound with can be read off its frames (`pinCount?`), and a
  request leaves the kernel sound with the same ledger, whether it is answered or fails half-way.
  So every frame has the pins afterwards that it had before; only the two halves of a copy change
  them, each by one.
-/
import DemandPaging.Proofs.Reachable

namespace DemandPaging

/-- The ledger counts for the frames that there are. -/
theorem Residency.Coherent.of_pins {pins pins' : Frame → Nat} {r : Residency}
    (h : r.Coherent pins none)
    (hpins : ∀ {f i}, r.frames.info? f = some i → pins' f = pins f) : r.Coherent pins' none := by
  refine { h with owned := ?_, resident := ?_, pinned := ?_ }
  · intro f i pid hi hloose ho
    rw [hpins hi]
    exact h.owned hi hloose ho
  · intro pid v e f he hs
    have hheld := h.resident he hs
    rw [hpins hheld.2]
    exact hheld
  · intro f i hi hloose
    rw [hpins hi]
    exact h.pinned hi hloose

namespace Kernel

variable {σ : Type} {V : Violation → Prop} {pins pins' : Frame → Nat} {k k' : Kernel σ} {pid : Pid}
  {v : Vpn} {f g : Frame} {write : Bool}

/-- The pins of a frame, if there is such a frame. -/
def pinCount? (k : Kernel σ) (f : Frame) : Option Nat :=
  (k.residency.frames.info? f).map (·.pinCount)

theorem Sound.pinCount?_eq (h : k.Sound pins none) :
    k.pinCount? f = if f < k.config.physPages then some (pins f) else none := by
  rw [← h.physPages]
  exact h.pinCount_eq

/-- The pins of a frame change as the ledger does. -/
theorem Sound.pinCount?_map {c : Nat → Nat} (h : k.Sound pins none) (h' : k'.Sound pins' none)
    (hconfig : k'.config = k.config) (hpins : pins' g = c (pins g)) :
    k'.pinCount? g = (k.pinCount? g).map c := by
  rw [h.pinCount?_eq, h'.pinCount?_eq, hconfig, hpins]
  split <;> rfl

/-- The ledger can be read off the frames. -/
theorem Sound.counted (h : k.Sound pins none) :
    k.Sound (fun f => (k.pinCount? f).getD 0) none := by
  have hpins : ∀ {f i}, k.residency.frames.info? f = some i → (k.pinCount? f).getD 0 = pins f := by
    intro f i hi
    rw [pinCount?, hi]
    exact h.frames.pinned hi (by simp)
  exact ⟨h.frames.of_pins hpins, h.tlb, h.slots, h.memory, h.numFrames, h.swapSize, h.physPages,
    h.divisible, h.laid⟩

theorem Continues.pinCount? (hdone : Continues pins k k') (h : k.Sound pins none) :
    k'.pinCount? = k.pinCount? := by
  funext g
  rw [h.pinCount?_map hdone.sound hdone.same.config (c := id) rfl, Option.map_id_apply]

/-- Where every frame has room for one more pin, the ledger that is read off them has. -/
theorem room_of_pinCount? (hroom : ∀ f n, k.pinCount? f = some n → n + 1 < limit32 ∨ V .overflow) :
    (k.pinCount? f).getD 0 + 1 < limit32 ∨ V .overflow := by
  cases hf : k.pinCount? f with
  | none => exact .inl (by decide)
  | some n => exact hroom f n hf

section Requests

variable [BackingStore σ]

/-- A pin that is taken is one pin more on the frame of the page. -/
theorem ends_pinPage_pinCount? (h : k.Sound pins none) :
    Ends (fun _ => True) (pinPage pid v write).run k fun r k' =>
      (∀ f, r = .ok f → ∀ g, k'.pinCount? g =
        (k.pinCount? g).map fun n => if g = f then n + 1 else n) ∧
      ∀ error, r = .error error → k'.pinCount? = k.pinCount? := by
  refine ends_pinPage .any h (fun _ _ => .inr trivial) fun r k' hpage => ?_
  cases hpage with
  | failed hres =>
    have hstays := hres.stays h
    exact ⟨by simp, fun _ _ => hstays.continues.pinCount? h⟩
  | refused hres =>
    have hstays := (hres.ready h).toStays
    exact ⟨by simp, fun _ _ => hstays.continues.pinCount? h⟩
  | @pinned e f k₁ hres he hs hwrite =>
    obtain ⟨⟨h₁, hkeeps⟩, -⟩ := hres.ready h
    refine ⟨?_, by simp⟩
    rintro _ ⟨⟩ g
    exact h.pinCount?_map (h₁.referenced he hs hwrite) hkeeps.config rfl

omit [BackingStore σ] in
/-- A pin that is given back is one pin less on a frame that has one. -/
theorem ends_unpin_pinCount? (h : k.Sound pins none) :
    Ends (fun _ => True) (onFrames (σ := σ) (·.unpin f)).run k fun r k' =>
      r = .ok () ∧ (∃ n, k.pinCount? f = some (n + 1)) ∧
        ∀ g, k'.pinCount? g = (k.pinCount? g).map fun n => if g = f then n - 1 else n := by
  refine ends_unpin_or_stop h fun k' hun => ⟨rfl, ?_, fun g => ?_⟩
  · have hpinned : ∃ i, k.residency.frames.info? f = some i ∧ 0 < pins f := by
      cases hun with
      | kept hi hpos => exact ⟨_, hi, hpos⟩
      | freed hi hone => exact ⟨_, hi, hone ▸ Nat.one_pos⟩
    obtain ⟨i, hi, hpos⟩ := hpinned
    refine ⟨pins f - 1, ?_⟩
    rw [pinCount?, hi, Option.map_some, h.frames.pinned hi (by simp), Nat.sub_add_cancel hpos]
  · exact h.pinCount?_map (hun.sound h) hun.keeps.config rfl

/-- Whatever request is made in a reachable kernel, whatever is pinned there and whatever comes of
    the request, every frame has the pins afterwards that it had before; and no pin stops the
    request, unless a frame has all the pins that can be counted.  Only taking a pin for a copy,
    and giving it back, change the pins, of one frame and by one; failing to take it changes none. -/
theorem Reachable.pins_balanced (h : k.Reachable) (choices : Choices) :
    (∀ request, Ends (fun _ => True) (Kernel.perform request).run { k with choices } fun _ k' =>
      k'.pinCount? = k.pinCount?) ∧
    (∀ {c : Conduct σ} {V : Violation → Prop} request, Tolerated c V k →
      (∀ f n, k.pinCount? f = some n → n + 1 < limit32 ∨ V .overflow) →
      (∀ pid, request = Request.process pid .exit ∨ request = .process pid .drop →
        Exits V pid k) →
      (∀ sections, request = Request.spawn sections →
        Ends V (Kernel.spawn (σ := σ) sections).run { k with choices } fun _ _ => True) →
      Ends V (Kernel.perform request).run { k with choices } fun _ _ => True) ∧
    (∀ pid v write, Ends (fun _ => True) (pinPage pid v write).run { k with choices } fun r k' =>
      (∀ f, r = .ok f → ∀ g, k'.pinCount? g =
        (k.pinCount? g).map fun n => if g = f then n + 1 else n) ∧
      ∀ error, r = .error error → k'.pinCount? = k.pinCount?) ∧
    ∀ f, Ends (fun _ => True) (onFrames (σ := σ) (·.unpin f)).run { k with choices } fun r k' =>
      r = .ok () ∧ (∃ n, k.pinCount? f = some (n + 1)) ∧
        ∀ g, k'.pinCount? g = (k.pinCount? g).map fun n => if g = f then n - 1 else n := by
  obtain ⟨pins, hsound, hsize⟩ := h.sound
  have hdealt : Sound pins none { k with choices } := hsound.redealt
  refine ⟨fun request => ?_, fun {c V} request hc hroom hexit hspawn => ?_,
    fun pid v write => ends_pinPage_pinCount? hdealt, fun f => ends_unpin_pinCount? hdealt⟩
  · have hends : Ends (fun _ => True) (Kernel.perform request).run { k with choices } fun _ k' =>
        Continues pins { k with choices } k' :=
      ends_perform .any hdealt hsize (fun _ => .inr trivial) (fun _ _ => .any) fun _ _ =>
        Checked.ends_true fun _ _ => trivial
    exact hends.imp fun _ k' hdone => hdone.pinCount? hdealt
  · have hc' : Tolerated c V { k with choices } := ⟨hc.store, hc.loads, hc.divides⟩
    exact (ends_perform hc' hdealt.counted hsize (fun _ => room_of_pinCount? hroom) hexit hspawn).imp
      fun _ _ _ => trivial

/-- A page that may be written, and one that may not. -/
def dataAndText : List Section := [
  { name := "data", firstVpn := 0, readOnly := false, pageSize := 4, content := .data (.ofList [1]) },
  { name := "text", firstVpn := 1, readOnly := true, pageSize := 4, content := .data (.ofList [2]) }]

/-- The only other frame is pinned: a copy fails half-way at a read-only page, and the store cannot
    take the page that it changed. -/
theorem Reachable.pins_balanced_of_failures : ∃ k k₁ k₂ : Kernel MemoryStore,
    k.pinCount? 0 = some 1 ∧ k.pinCount? 1 = some 0 ∧
      (Kernel.perform (.process 1 (.writeBytes 2 [9, 9, 9, 9]))).run.run k =
        .ok (.error (.readOnly 1), k₁) ∧ k₁.pinCount? = k.pinCount? ∧
      (Kernel.perform (.process 1 (.storeByte 8 1))).run.run k₁ =
        .ok (.error (.swap (.io .other)), k₂) ∧ k₂.pinCount? = k.pinCount? := by
  have hrun : (boot 4 { physPages := 2, tlbSize := 1, stackPages := 1 }
      ({ failingWrites := [0] } : MemoryStore) dataAndText [] >>= fun k₀ =>
        (operate (.request (.spawn [0, 1]))).run.run k₀ >>= fun r₁ =>
          (operate (.pin 1 1 false)).run.run r₁.2 >>= fun r₂ =>
            (Kernel.perform (.process 1 (.writeBytes 2 [9, 9, 9, 9]))).run.run r₂.2 >>= fun r₃ =>
              (Kernel.perform (.process 1 (.storeByte 8 1))).run.run r₃.2 >>= fun r₄ =>
                .ok (r₂.2.pinCount? 0, r₂.2.pinCount? 1, failure? r₃.1, failure? r₄.1)).toOption =
      some (some 1, some 0, some (.readOnly 1), some (.swap (.io .other))) := by
    decide +kernel
  obtain ⟨k₀, hboot, hrun⟩ := Checked.exists_of_toOption_bind hrun
  obtain ⟨⟨r₁, k₁⟩, hspawn, hrun⟩ := Checked.exists_of_toOption_bind hrun
  obtain ⟨⟨r₂, k⟩, hpin, hrun⟩ := Checked.exists_of_toOption_bind hrun
  obtain ⟨⟨r₃, k₃⟩, hcopy, hrun⟩ := Checked.exists_of_toOption_bind hrun
  obtain ⟨⟨r₄, k₄⟩, hstore, hrun⟩ := Checked.exists_of_toOption_bind hrun
  have hall := Option.some.inj hrun
  simp only [Prod.mk.injEq] at hall
  obtain ⟨hone, hzero, hreadOnly, hswap⟩ := hall
  obtain rfl := failure?_eq_some.1 hreadOnly
  obtain rfl := failure?_eq_some.1 hswap
  have hk : k.Reachable := .step (.step (.fresh hboot) hspawn) hpin
  obtain ⟨hfirst, -⟩ := Reachable.pins_balanced hk k.choices
  obtain ⟨hsecond, -⟩ := Reachable.pins_balanced (hk.perform hcopy) k₃.choices
  have hcopied : k₃.pinCount? = k.pinCount? := (hfirst _).of_run hcopy
  have hstored : k₄.pinCount? = k₃.pinCount? := (hsecond _).of_run hstore
  exact ⟨k, k₃, k₄, hone, hzero, hcopy, hcopied, hstore, hstored.trans hcopied⟩

end Requests

end Kernel

end DemandPaging
