/-
  Runs of bytes.

  * `slice` and `overwrite` read and replace a range, `extend` makes room;
  * `word` and `ofWord` are the big-endian view of four bytes;
  * `getElem?_overwrite` says which byte stands where after a replacement,
    `slice_append_across` and `overwrite_append_across` how a range of a run in two
    parts is made of ranges of the parts, and `word_ofWord` that a 32-bit word
    survives being written and read.
-/
import DemandPaging.Outcome

namespace DemandPaging

/-- A run of bytes. -/
abbrev Bytes := List UInt8

namespace Bytes

/-- A run of `len` zero bytes. -/
def zeros (len : Nat) : Bytes := List.replicate len 0

/-- The bytes from `start` on, at most `len` of them. -/
def slice (bytes : Bytes) (start len : Nat) : Bytes := (bytes.drop start).take len

/-- The run with the bytes from `start` on replaced by `src`. -/
def overwrite (bytes : Bytes) (start : Nat) (src : Bytes) : Bytes :=
  bytes.take start ++ src ++ bytes.drop (start + src.length)

/-- The run extended by zeroes to at least `len` bytes. -/
def extend (bytes : Bytes) (len : Nat) : Bytes := bytes ++ zeros (len - bytes.length)

/-- The number of bytes in a machine word. -/
def wordSize : Nat := 4

/-- The number that the bytes spell, the most significant byte first. -/
def word (bytes : Bytes) : Nat := bytes.foldl (fun n b => n * 256 + b.toNat) 0

/-- The four bytes of a word, the most significant byte first. -/
def ofWord (w : Nat) : Bytes :=
  [UInt8.ofNat (w / 0x1000000), UInt8.ofNat (w / 0x10000), UInt8.ofNat (w / 0x100),
    UInt8.ofNat w]

@[simp] theorem length_zeros (len : Nat) : (zeros len).length = len := by simp [zeros]

@[simp] theorem length_ofWord (w : Nat) : (ofWord w).length = wordSize := rfl

theorem length_slice (bytes : Bytes) (start len : Nat) (h : start + len ≤ bytes.length) :
    (slice bytes start len).length = len := by
  simp [slice]; omega

theorem take_slice (bytes : Bytes) (start len n : Nat) (h : n ≤ len) :
    (slice bytes start len).take n = slice bytes start n := by
  simp [slice, List.take_take, Nat.min_eq_left h]

theorem drop_slice (bytes : Bytes) (start len n : Nat) :
    (slice bytes start len).drop n = slice bytes (start + n) (len - n) := by
  simp [slice, List.drop_take, List.drop_drop]

theorem length_overwrite (bytes src : Bytes) (start : Nat)
    (h : start + src.length ≤ bytes.length) :
    (overwrite bytes start src).length = bytes.length := by
  simp [overwrite]; omega

/-- After a replacement the new bytes stand in their range and the old ones elsewhere. -/
theorem getElem?_overwrite (bytes src : Bytes) (start i : Nat)
    (h : start + src.length ≤ bytes.length) :
    (overwrite bytes start src)[i]? =
      if start ≤ i ∧ i < start + src.length then src[i - start]? else bytes[i]? := by
  unfold overwrite
  rw [List.append_assoc]
  by_cases hlow : i < start
  · rw [List.getElem?_append_left (by simp; omega), List.getElem?_take_of_lt hlow,
      if_neg (by omega)]
  · rw [List.getElem?_append_right (by simp; omega)]
    have hstart : (bytes.take start).length = start := by simp; omega
    rw [hstart]
    by_cases hhigh : i < start + src.length
    · rw [List.getElem?_append_left (by omega), if_pos (by omega)]
    · rw [List.getElem?_append_right (by omega), if_neg (by omega), List.getElem?_drop]
      congr 1; omega

/-! ### Ranges of a run in two parts -/

theorem slice_append_left (a b : Bytes) (start len : Nat) (h : start + len ≤ a.length) :
    slice (a ++ b) start len = slice a start len := by
  unfold slice
  rw [List.drop_append_of_le_length (by omega), List.take_append_of_le_length (by simp; omega)]

theorem slice_append_right (a b : Bytes) (start len : Nat) (h : a.length ≤ start) :
    slice (a ++ b) start len = slice b (start - a.length) len := by
  simp [slice, List.drop_append, List.drop_eq_nil_of_le h]

theorem slice_append_across (a b : Bytes) (start len : Nat) (hlow : start ≤ a.length)
    (hhigh : a.length ≤ start + len) :
    slice (a ++ b) start len =
      slice a start (a.length - start) ++ slice b 0 (len - (a.length - start)) := by
  have hdrop : (a.drop start).length = a.length - start := List.length_drop
  unfold slice
  rw [List.drop_append_of_le_length hlow, List.take_append, hdrop, List.drop_zero, ← hdrop,
    List.take_length, List.take_of_length_le (by omega)]

theorem overwrite_append_left (a b src : Bytes) (start : Nat) (h : start + src.length ≤ a.length) :
    overwrite (a ++ b) start src = overwrite a start src ++ b := by
  simp [overwrite, List.drop_append, List.take_append, Nat.sub_eq_zero_of_le h]
  omega

theorem overwrite_append_right (a b src : Bytes) (start : Nat) (h : a.length ≤ start) :
    overwrite (a ++ b) start src = a ++ overwrite b (start - a.length) src := by
  simp [overwrite, List.drop_append, List.take_append, List.take_of_length_le h]
  rw [List.drop_eq_nil_of_le (by omega), List.nil_append]; congr 1; omega

theorem overwrite_append_across (a b src : Bytes) (start : Nat) (hlow : start ≤ a.length)
    (hhigh : a.length ≤ start + src.length) :
    overwrite (a ++ b) start src =
      overwrite a start (src.take (a.length - start)) ++
        overwrite b 0 (src.drop (a.length - start)) := by
  have hkept : a.drop (start + (src.take (a.length - start)).length) = [] :=
    List.drop_eq_nil_of_le (by rw [List.length_take]; omega)
  have hrest : (a ++ b).drop (start + src.length) =
      b.drop (0 + (src.drop (a.length - start)).length) := by
    rw [List.drop_append, List.drop_eq_nil_of_le hhigh, List.length_drop, List.nil_append]
    congr 1
    omega
  simp only [overwrite, hkept, hrest, List.take_append_of_le_length hlow, List.append_nil,
    List.take_zero, List.nil_append, List.append_assoc]
  rw [← List.append_assoc (src.take _), List.take_append_drop]

/-- A range of a run padded to `n` bytes is the range of the run, padded. -/
theorem slice_padded (bytes : Bytes) (n start len : Nat) (h : start + len ≤ n) :
    slice ((extend bytes n).take n) start len = extend (slice bytes start len) len := by
  simp only [slice, extend, zeros, List.drop_take, List.take_take, List.drop_append,
    List.take_append, List.drop_replicate, List.take_replicate, List.length_drop, List.length_take]
  congr 2
  · omega
  · omega

/-- A replacement in a run padded to `n` bytes is one in the run, padded. -/
theorem padded_overwrite (bytes src : Bytes) (n start : Nat) (h : start + src.length ≤ n) :
    (extend (overwrite (extend bytes start) start src) n).take n =
      overwrite ((extend bytes n).take n) start src := by
  apply List.ext_getElem?
  intro i
  simp only [overwrite, extend, zeros, List.getElem?_append, List.getElem?_take,
    List.getElem?_drop, List.getElem?_replicate, List.length_append, List.length_take,
    List.length_drop, List.length_replicate]
  grind

/-- A 32-bit word survives being written and read. -/
theorem word_ofWord (w : Nat) (h : w < limit32) : word (ofWord w) = w := by
  unfold limit32 at h
  simp [word, ofWord]; omega

end Bytes

end DemandPaging
