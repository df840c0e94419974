/-
  Accesses to main memory that stay inside it.

  Every access that ends within the capacity succeeds: a read gives a slice of the bytes,
  a write replaces one.  A place in a page of an existing frame is such a place.
-/
import DemandPaging.PhysicalMemory
import DemandPaging.Proofs.Ends
import DemandPaging.Proofs.Ranges

namespace DemandPaging

/-! ## Checks of ranges -/

section Bounded

variable {β : Type} {capacity start len : Nat} {refused used : Checked β}

/-- Comes to `refused` or to `used`, as the end of a range, which is a 64-bit sum, lies past the
    capacity or not. -/
def bounded (capacity start len : Nat) (refused used : Checked β) : Checked β :=
  if start + len < limit64 then if capacity < start + len then refused else used
  else Violation.overflow.stop

theorem bounded_within (hcap : capacity < limit64) (h : start + len ≤ capacity) :
    bounded capacity start len refused used = used := by
  rw [bounded, if_pos (by omega), if_neg (by omega)]

theorem bounded_past (h : capacity < start + len) (hlt : start + len < limit64) :
    bounded capacity start len refused used = refused := by
  rw [bounded, if_pos hlt, if_pos h]

theorem bounded_over (h : limit64 ≤ start + len) :
    bounded capacity start len refused used = .error .overflow := by
  rw [bounded, if_neg (by omega)]
  rfl

end Bounded

namespace PhysicalMemory

variable {mem : PhysicalMemory} {address len offset : Nat} {src page : Bytes} {f g : Frame}

/-- The block has the size that the numbers of memory say, which is not too large. -/
structure Formed (mem : PhysicalMemory) : Prop where
  length : mem.bytes.toList.length = mem.capacity
  capacity_lt : mem.capacity < limit63
  pageSize_pos : 0 < mem.pageSize

theorem formed_zeros {pageSize n : Nat} (hpos : 0 < pageSize) (hroom : n * pageSize < limit63) :
    Formed ⟨pageSize, n, Block.zeros (n * pageSize)⟩ :=
  ⟨by simp [capacity], hroom, hpos⟩

/-- Memory of zeroes is made if there is room for it. -/
theorem ends_create_zeros {pageSize n : Nat} (hpower : Nat.pow 2 pageSize.log2 = pageSize)
    (hn : 0 < n) :
    Checked.Ends (fun _ => limit63 ≤ n * pageSize) (create pageSize n) fun mem =>
      mem = ⟨pageSize, n, Block.zeros (n * pageSize)⟩ ∧ n * pageSize < limit63 := by
  simp only [create, Checked.ends_bind, Checked.ends_require, Checked.ends_mulBelow,
    Checked.ends_reserve, Checked.ends_pure, hpower, hn, Nat.mul_one,
    decide_true, forall_const, true_and, Bool.true_eq_false, false_imp_iff, and_true, Nat.not_lt]
  refine ⟨fun _ => ⟨id, id⟩, fun hover => ?_⟩
  exact Nat.le_trans (by decide) hover

/-- Memory with the bytes from `address` on replaced by `src`. -/
def patch (mem : PhysicalMemory) (address : Nat) (src : Bytes) : PhysicalMemory :=
  { mem with bytes := mem.bytes.put address src }

@[simp] theorem pageSize_patch : (mem.patch address src).pageSize = mem.pageSize := rfl

@[simp] theorem numFrames_patch : (mem.patch address src).numFrames = mem.numFrames := rfl

theorem toList_patch (h : mem.Formed) (hin : address + src.length ≤ mem.capacity) :
    (mem.patch address src).bytes.toList = Bytes.overwrite mem.bytes.toList address src :=
  Block.toList_put_of_le (by rw [h.length]; exact hin)

theorem Formed.patch (h : mem.Formed) (hin : address + src.length ≤ mem.capacity) :
    (mem.patch address src).Formed where
  length := by
    rw [toList_patch h hin, Bytes.length_overwrite _ _ _ (by rw [h.length]; exact hin)]
    exact h.length
  capacity_lt := h.capacity_lt
  pageSize_pos := h.pageSize_pos

theorem Formed.capacity_lt_limit64 (h : mem.Formed) : mem.capacity < limit64 := by
  have hcap := h.capacity_lt
  unfold limit63 at hcap
  unfold limit64
  omega

theorem run_checkRange :
    (mem.checkRange address len).run =
      bounded mem.capacity address len (.ok (.error .overCapacity)) (.ok (.ok ())) := by
  unfold checkRange addBelow bounded
  by_cases hlt : address + len < limit64
  · rw [if_pos hlt, if_pos hlt]
    change ExceptT.run (if mem.capacity < address + len then throw MemoryError.overCapacity
      else pure ()) = _
    split <;> rfl
  · rw [if_neg hlt, if_neg hlt]
    rfl

theorem checkRange_eq (h : mem.Formed) (hin : address + len ≤ mem.capacity) :
    (mem.checkRange address len).run = .ok (.ok ()) := by
  rw [run_checkRange, bounded_within h.capacity_lt_limit64 hin]

theorem read_eq (h : mem.Formed) (hin : address + len ≤ mem.capacity) :
    (mem.read address len).run = .ok (.ok (Bytes.slice mem.bytes.toList address len)) := by
  unfold read
  rw [ExceptT.run_bind, checkRange_eq h hin,
    Block.readRange_eq_ok (by rw [h.length]; exact hin)]
  rfl

theorem write_eq (h : mem.Formed) (hin : address + src.length ≤ mem.capacity) :
    (mem.write address src).run = .ok (.ok (mem.patch address src)) := by
  unfold write
  rw [ExceptT.run_bind, checkRange_eq h hin,
    Block.writeRange_eq_ok (by rw [h.length]; exact hin)]
  rfl

/-- An access that ends past the last byte is refused. -/
theorem checkRange_eq_of_lt (hlt : address + len < limit64) (hout : mem.capacity < address + len) :
    (mem.checkRange address len).run = .ok (.error .overCapacity) := by
  rw [run_checkRange, bounded_past hout hlt]

/-- What is read is there, or the access is refused. -/
theorem read_returns (h : mem.Formed) (hlt : address + len < limit64) :
    ∃ r, (mem.read address len).run = .ok r := by
  rcases Nat.lt_or_ge mem.capacity (address + len) with hout | hin
  · refine ⟨.error .overCapacity, ?_⟩
    unfold read
    rw [ExceptT.run_bind, checkRange_eq_of_lt hlt hout]
    rfl
  · exact ⟨_, read_eq h hin⟩

/-- A write keeps the size of memory, or is refused. -/
theorem write_returns (h : mem.Formed) (hlt : address + src.length < limit64) :
    ∃ r, (mem.write address src).run = .ok r ∧ ∀ mem', r = .ok mem' →
      mem'.Formed ∧ mem'.pageSize = mem.pageSize ∧ mem'.numFrames = mem.numFrames := by
  rcases Nat.lt_or_ge mem.capacity (address + src.length) with hout | hin
  · refine ⟨.error .overCapacity, ?_, (by simp)⟩
    unfold write
    rw [ExceptT.run_bind, checkRange_eq_of_lt hlt hout]
    rfl
  · refine ⟨_, write_eq h hin, ?_⟩
    rintro _ ⟨⟩
    exact ⟨h.patch hin, rfl, rfl⟩

theorem readByte_eq (h : mem.Formed) (hin : address + 1 ≤ mem.capacity) :
    ∃ b, mem.bytes.toList[address]? = some b ∧ (mem.readByte address).run = .ok (.ok b) := by
  have hlt : address < mem.bytes.toList.length := by rw [h.length]; omega
  refine ⟨_, List.getElem?_eq_getElem hlt, ?_⟩
  unfold readByte
  rw [ExceptT.run_bind, checkRange_eq h hin, Block.get?_eq, List.getElem?_eq_getElem hlt]
  rfl

theorem readWord_eq (h : mem.Formed) (hin : address + Bytes.wordSize ≤ mem.capacity) :
    (mem.readWord address).run =
      .ok (.ok (Bytes.word (Bytes.slice mem.bytes.toList address Bytes.wordSize))) := by
  unfold readWord
  rw [ExceptT.run_bind, read_eq h hin]
  rfl

theorem readWord_returns (h : mem.Formed) (hlt : address + Bytes.wordSize < limit64) :
    ∃ r, (mem.readWord address).run = .ok r := by
  obtain ⟨r, hr⟩ := read_returns h hlt
  refine ⟨r.map Bytes.word, ?_⟩
  rw [readWord, ExceptT.run_bind, hr]
  cases r <;> rfl

/-- A place in a page of an existing frame lies in memory. -/
theorem place_le (hf : f < mem.numFrames) (hin : offset + len ≤ mem.pageSize) :
    f * mem.pageSize + offset + len ≤ mem.capacity := by
  calc
    f * mem.pageSize + offset + len ≤ (f + 1) * mem.pageSize := by
      rw [Nat.succ_mul, Nat.add_assoc]
      exact Nat.add_le_add_left hin _
    _ ≤ mem.capacity := Nat.mul_le_mul_right _ hf

theorem frame_le (hf : f < mem.numFrames) : f * mem.pageSize + mem.pageSize ≤ mem.capacity := by
  have hle : f * mem.pageSize + 0 + mem.pageSize ≤ mem.capacity := place_le hf (by omega)
  simpa using hle

/-- The content of an existing frame. -/
def frameBytes (mem : PhysicalMemory) (f : Frame) : Bytes :=
  Bytes.slice mem.bytes.toList (f * mem.pageSize) mem.pageSize

theorem length_frameBytes (h : mem.Formed) (hf : f < mem.numFrames) :
    (mem.frameBytes f).length = mem.pageSize :=
  Bytes.length_slice _ _ _ (by rw [h.length]; exact frame_le hf)

/-- A write in a frame changes the content of that frame. -/
theorem frameBytes_patch (h : mem.Formed) (hf : f < mem.numFrames)
    (hin : offset + src.length ≤ mem.pageSize) :
    (mem.patch (f * mem.pageSize + offset) src).frameBytes g =
      if g = f then Bytes.overwrite (mem.frameBytes f) offset src else mem.frameBytes g := by
  unfold frameBytes
  rw [pageSize_patch, toList_patch h (place_le hf hin)]
  exact Bytes.slice_unit_overwrite h.length hf hin

/-- A frame that a whole page is written to has that content. -/
theorem frameBytes_patch_page (h : mem.Formed) (hf : f < mem.numFrames)
    (hlen : page.length = mem.pageSize) :
    (mem.patch (f * mem.pageSize) page).frameBytes g = if g = f then page else mem.frameBytes g := by
  have hfits : 0 + page.length ≤ mem.pageSize := by omega
  have hpatch : (mem.patch (f * mem.pageSize + 0) page).frameBytes g =
      if g = f then Bytes.overwrite (mem.frameBytes f) 0 page else mem.frameBytes g :=
    frameBytes_patch h hf hfits
  rwa [Nat.add_zero, Bytes.overwrite_all ((length_frameBytes h hf).trans hlen.symm)] at hpatch

theorem readFrame_eq (h : mem.Formed) (hf : f < mem.numFrames) :
    (mem.readFrame f mem.pageSize).run = .ok (.ok (mem.frameBytes f)) := by
  have hread := read_eq h (frame_le hf)
  simp only [readFrame, checkFrame, Checked.require, decide_true, if_true, Nat.not_le.2 hf, if_false]
  exact hread

theorem writeFrame_eq (h : mem.Formed) (hf : f < mem.numFrames) (hlen : page.length = mem.pageSize) :
    (mem.writeFrame f page).run = .ok (.ok (mem.patch (f * mem.pageSize) page)) := by
  have hin : f * mem.pageSize + page.length ≤ mem.capacity := hlen ▸ frame_le hf
  refine Eq.trans ?_ (write_eq h hin)
  simp only [writeFrame, checkFrame, Checked.require, hlen, decide_true, if_true, Nat.not_le.2 hf,
    if_false]
  rfl

end PhysicalMemory

end DemandPaging
