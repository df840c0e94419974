/-
  Ranges of a run of bytes that was written to.

  A range that the write lies in is written to itself, one that the write misses stays as it
  was.
-/
import DemandPaging.Bytes

namespace DemandPaging.Bytes

variable {bytes src more : Bytes} {start len address i n size v w : Nat}

theorem getElem?_slice :
    (slice bytes start len)[i]? = if i < len then bytes[start + i]? else none := by
  unfold slice
  rw [List.getElem?_take, List.getElem?_drop]

/-- Two ranges are the same if they have the same bytes. -/
theorem slice_congr (h : ∀ i < len, bytes[start + i]? = more[address + i]?) :
    slice bytes start len = slice more address len := by
  refine List.ext_getElem? fun i => ?_
  rw [getElem?_slice, getElem?_slice]
  split
  · next hi => exact h i hi
  · rfl

theorem slice_slice (h : address + n ≤ len) :
    slice (slice bytes start len) address n = slice bytes (start + address) n := by
  refine slice_congr fun i hi => ?_
  rw [getElem?_slice, if_pos (by omega), Nat.add_assoc]

theorem slice_overwrite_within (hin : address + src.length ≤ bytes.length) (hlow : start ≤ address)
    (hhigh : address + src.length ≤ start + len) (hlen : start + len ≤ bytes.length) :
    slice (overwrite bytes address src) start len =
      overwrite (slice bytes start len) (address - start) src := by
  have hslice : (slice bytes start len).length = len := length_slice _ _ _ hlen
  refine List.ext_getElem? fun i => ?_
  rw [getElem?_overwrite _ _ _ _ (by omega), getElem?_slice, getElem?_overwrite _ _ _ _ hin]
  by_cases hi : i < len
  · rw [if_pos hi, getElem?_slice, if_pos hi]
    by_cases hhit : address ≤ start + i ∧ start + i < address + src.length
    · rw [if_pos hhit, if_pos (by omega)]
      congr 1
      omega
    · rw [if_neg hhit, if_neg (by omega)]
  · rw [if_neg hi, if_neg (by omega), getElem?_slice, if_neg hi]

theorem slice_overwrite_apart (hin : address + src.length ≤ bytes.length)
    (hapart : start + len ≤ address ∨ address + src.length ≤ start) :
    slice (overwrite bytes address src) start len = slice bytes start len := by
  refine slice_congr fun i hi => ?_
  rw [getElem?_overwrite _ _ _ _ hin, if_neg (by omega)]

/-- What is there after a write comes from what was written or, elsewhere, from before. -/
theorem getElem?_overwrite_or (hin : address + src.length ≤ bytes.length) :
    (overwrite bytes address src)[i]? =
      if address ≤ i then src[i - address]?.or bytes[i]? else bytes[i]? := by
  rw [getElem?_overwrite _ _ _ _ hin]
  by_cases hlow : address ≤ i
  · by_cases hhigh : i < address + src.length
    · have hlt : i - address < src.length := by omega
      rw [if_pos ⟨hlow, hhigh⟩, if_pos hlow, List.getElem?_eq_getElem hlt, Option.some_or]
    · have hle : src.length ≤ i - address := by omega
      rw [if_neg fun hboth => hhigh hboth.2, if_pos hlow, List.getElem?_eq_none hle, Option.none_or]
  · rw [if_neg fun hboth => hlow hboth.1, if_neg hlow]

@[simp] theorem overwrite_nil : overwrite bytes address [] = bytes := by
  simp [overwrite]

/-- A write of all bytes. -/
theorem overwrite_all (hlen : bytes.length = src.length) : overwrite bytes 0 src = src := by
  simp [overwrite, ← hlen]

/-! ## Units of one size -/

/-- Different units do not overlap. -/
theorem unit_apart (h : v ≠ w) : v * size + size ≤ w * size ∨ w * size + size ≤ v * size := by
  rcases Nat.lt_or_gt_of_ne h with hlt | hlt
  · left
    rw [← Nat.succ_mul]
    exact Nat.mul_le_mul_right _ hlt
  · right
    rw [← Nat.succ_mul]
    exact Nat.mul_le_mul_right _ hlt

/-- A unit of a run of `n` of them. -/
theorem unit_le (h : v < n) : v * size + size ≤ n * size := by
  rw [← Nat.succ_mul]
  exact Nat.mul_le_mul_right _ h

/-- Units one after another. -/
theorem flatten_units : ((List.range n).map fun i => slice bytes (i * size) size).flatten =
    bytes.take (n * size) := by
  induction n with
  | zero => simp
  | succ n ih =>
    rw [List.range_succ, List.map_append, List.flatten_append, ih, Nat.succ_mul, List.take_add]
    simp [slice]

/-- A write inside a unit changes that unit. -/
theorem slice_unit_overwrite (hlen : bytes.length = n * size) (hv : v < n)
    (hfits : i + src.length ≤ size) :
    slice (overwrite bytes (v * size + i) src) (w * size) size =
      if w = v then overwrite (slice bytes (v * size) size) i src
      else slice bytes (w * size) size := by
  have hunit : v * size + size ≤ n * size := unit_le hv
  split
  · next hw =>
    subst hw
    rw [slice_overwrite_within (by omega) (by omega) (by omega) (by omega),
      Nat.add_sub_cancel_left]
  · next hw =>
    refine slice_overwrite_apart (by omega) ?_
    have hapart : w * size + size ≤ v * size ∨ v * size + size ≤ w * size := unit_apart hw
    omega

end DemandPaging.Bytes
