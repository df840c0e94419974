/-
  Bytes packed into one array.  Each operation is an operation on runs of bytes
  (`slice_eq`, `toList_copy`), seen through `Packed.toList`.
-/
import DemandPaging.Bytes

namespace DemandPaging

/-- Bytes packed into one array. -/
structure Packed where
  data : ByteArray

namespace Packed

/-- The bytes as a run. -/
def toList (bytes : Packed) : Bytes := bytes.data.data.toList

instance : Repr Packed := ⟨fun bytes => reprPrec bytes.toList⟩

/-- The given bytes. -/
def ofList (bytes : Bytes) : Packed := ⟨bytes.toByteArray⟩

/-- No bytes. -/
def empty : Packed := ⟨ByteArray.empty⟩

/-- The number of bytes. -/
def size (bytes : Packed) : Nat := bytes.data.size

/-- `len` zero bytes. -/
def zeros (len : Nat) : Packed := ⟨len.fold (fun _ _ data => data.push 0) ByteArray.empty⟩

/-- The bytes extended by zeroes to at least `len`. -/
def extend (bytes : Packed) (len : Nat) : Packed :=
  if len ≤ bytes.size then bytes else ⟨bytes.data ++ (zeros (len - bytes.size)).data⟩

/-- The bytes from `start` on, at most `len` of them. -/
def slice (bytes : Packed) (start len : Nat) : Bytes :=
  (bytes.data.extract start (start + len)).data.toList

/-- The bytes with those from `start` on replaced by at most `len` bytes of `src`, from
    `first` on.  Room up to `start` is made with zeroes. -/
def copy (bytes : Packed) (start : Nat) (src : Packed) (first len : Nat) : Packed :=
  ⟨src.data.copySlice first (bytes.extend start).data start len⟩

@[simp] theorem toList_ofList (bytes : Bytes) : (ofList bytes).toList = bytes := by
  simp [ofList, toList]

@[simp] theorem toList_empty : empty.toList = [] := rfl

@[simp] theorem size_eq (bytes : Packed) : bytes.size = bytes.toList.length := rfl

@[simp] theorem toList_zeros (len : Nat) : (zeros len).toList = Bytes.zeros len := by
  simp only [zeros, toList, Bytes.zeros]
  induction len with
  | zero => rfl
  | succ n ih => simp [Nat.fold_succ, List.replicate_succ', ih]

@[simp] theorem toList_extend (bytes : Packed) (len : Nat) :
    (bytes.extend len).toList = Bytes.extend bytes.toList len := by
  unfold extend Bytes.extend
  split
  · next h => simp [Nat.sub_eq_zero_of_le (size_eq bytes ▸ h), Bytes.zeros]
  · rw [← toList_zeros, size_eq]
    simp [toList]

@[simp] theorem slice_eq (bytes : Packed) (start len : Nat) :
    bytes.slice start len = Bytes.slice bytes.toList start len := by
  simp [slice, toList, Bytes.slice, List.extract_eq_take_drop]

@[simp] theorem toList_copy (bytes : Packed) (start : Nat) (src : Packed) (first len : Nat) :
    (bytes.copy start src first len).toList =
      Bytes.overwrite (Bytes.extend bytes.toList start) start
        (Bytes.slice src.toList first len) := by
  rw [← toList_extend]
  simp only [copy, ByteArray.copySlice, toList, Array.toList_append, Array.toList_extract,
    List.extract_eq_take_drop, Bytes.overwrite, Bytes.slice, List.drop_zero, Nat.sub_zero,
    List.append_assoc]
  rw [Nat.add_sub_cancel_left]
  congr 2
  rw [List.take_of_length_le (by simp), List.length_take, List.length_drop, Array.length_toList]

end Packed

end DemandPaging
