/-
  Bytes at rest: what memories, files and images are made of.

  A `Block` has as many bytes as it is told to have, and takes room only for those
  that were written.  Each operation is an operation on runs of bytes (`slice_eq`,
  `toList_put`, `toList_extend`), seen through `Block.toList`.
-/
import DemandPaging.ByteTree

namespace DemandPaging

/-- Bytes at rest.  What the tree holds past the last of them is zero. -/
structure Block where
  size : Nat
  height : Nat
  tree : ByteTree height
  size_le : size ≤ ByteTree.span height
  padded : tree.toList.drop size = Bytes.zeros (ByteTree.span height - size)

namespace Block

/-- The bytes as a run. -/
def toList (block : Block) : Bytes := block.tree.toList.take block.size

instance : Repr Block := ⟨fun block => reprPrec block.toList⟩

@[simp] theorem size_eq (block : Block) : block.size = block.toList.length := by
  simp [toList, Nat.min_eq_left block.size_le]

/-- The tree of a block holds its bytes followed by zeroes. -/
theorem toList_tree (block : Block) :
    block.tree.toList = block.toList ++ Bytes.zeros (ByteTree.span block.height - block.size) := by
  rw [← block.padded, toList, List.take_append_drop]

/-- The block without bytes. -/
def empty : Block where
  size := 0
  height := 0
  tree := .blank
  size_le := Nat.zero_le _
  padded := by simp

theorem toList_raise (block : Block) (k : Nat) :
    (block.tree.raise k).toList =
      block.toList ++ Bytes.zeros (ByteTree.span (block.height + k) - block.size) := by
  have hsize := block.size_le
  have hspan := ByteTree.span_add block.height k
  rw [ByteTree.toList_raise, toList_tree, List.append_assoc, Bytes.zeros, Bytes.zeros,
    List.replicate_append_replicate, Bytes.zeros]
  congr 2
  omega

/-- How many levels the tree has to grow to make room for `len` bytes. -/
def levelsFor (block : Block) (len : Nat) : Nat := ByteTree.heightFor len - block.height

theorem le_span_levelsFor (block : Block) (len : Nat) :
    block.size + (len - block.size) ≤ ByteTree.span (block.height + block.levelsFor len) := by
  have hlevels : ByteTree.heightFor len ≤ block.height + block.levelsFor len := by
    unfold levelsFor; omega
  have hsize := Nat.le_trans block.size_le (ByteTree.span_add block.height (block.levelsFor len))
  have hlen := Nat.le_trans (ByteTree.le_span_heightFor len) (ByteTree.span_mono hlevels)
  omega

theorem drop_raise (block : Block) (k more : Nat) :
    (block.tree.raise k).toList.drop (block.size + more) =
      Bytes.zeros (ByteTree.span (block.height + k) - (block.size + more)) := by
  rw [toList_raise, List.drop_append, List.drop_eq_nil_of_le (by rw [← size_eq]; omega),
    ← size_eq, List.nil_append, Bytes.zeros, List.drop_replicate, Bytes.zeros]
  congr 1
  omega

/-- The block extended by zeroes to at least `len` bytes. -/
def extend (block : Block) (len : Nat) : Block where
  size := block.size + (len - block.size)
  height := block.height + block.levelsFor len
  tree := block.tree.raise (block.levelsFor len)
  size_le := block.le_span_levelsFor len
  padded := block.drop_raise (block.levelsFor len) (len - block.size)

theorem le_size_extend (block : Block) (len : Nat) : len ≤ (block.extend len).size := by
  change len ≤ block.size + (len - block.size)
  omega

theorem toList_write {block : Block} {start : Nat} {src : Bytes}
    (h : start + src.length ≤ block.size) :
    (block.tree.write start (.ofList src) 0 src.length).toList =
      Bytes.overwrite block.toList start src ++
        Bytes.zeros (ByteTree.span block.height - block.size) := by
  rw [ByteTree.toList_write _ _ _ _ _ (Nat.le_trans h block.size_le) (by simp), toList_tree,
    Packed.toList_ofList, Bytes.slice, List.drop_zero, List.take_length,
    Bytes.overwrite_append_left _ _ _ _ (by rw [← size_eq]; exact h)]

/-- The block with the bytes from `start` on replaced by `src`.  Room up to the end of
    these is made with zeroes. -/
def put (block : Block) (start : Nat) (src : Bytes) : Block :=
  let len := src.length
  let room := block.extend (start + len)
  { room with
    tree := room.tree.write start (.ofList src) 0 len
    padded := by
      have h : start + src.length ≤ room.size := block.le_size_extend _
      have hlen := Bytes.length_overwrite room.toList src start (by rw [← size_eq]; exact h)
      rw [← size_eq] at hlen
      rw [toList_write h, List.drop_append, List.drop_eq_nil_of_le (Nat.le_of_eq hlen), hlen]
      simp }

/-- A block of the given bytes. -/
def ofList (bytes : Bytes) : Block := empty.put 0 bytes

/-- A block of `len` zero bytes. -/
def zeros (len : Nat) : Block := empty.extend len

/-- The bytes from `start` on, at most `len` of them. -/
def slice (block : Block) (start len : Nat) : Bytes :=
  if start < block.size then block.tree.readOnto start (min len (block.size - start)) [] else []

/-- The byte at position `i`. -/
def get? (block : Block) (i : Nat) : Option UInt8 := (block.slice i 1).head?

/-- The `len` bytes from `start` on, which have to be there. -/
def readRange (block : Block) (start len : Nat) : Checked Bytes :=
  if start + len ≤ block.size then .ok (block.slice start len) else Violation.index.stop

/-- The block with the bytes from `start` on, which have to be there, replaced by
    `src`. -/
def writeRange (block : Block) (start : Nat) (src : Bytes) : Checked Block :=
  if start + src.length ≤ block.size then .ok (block.put start src) else Violation.index.stop

@[simp] theorem toList_empty : empty.toList = [] := by simp [toList, empty]

@[simp] theorem toList_extend (block : Block) (len : Nat) :
    (block.extend len).toList = Bytes.extend block.toList len := by
  have hsize := block.le_span_levelsFor len
  change (block.tree.raise _).toList.take (block.size + (len - block.size)) = _
  rw [toList_raise, List.take_append, List.take_of_length_le (by rw [← size_eq]; omega),
    ← size_eq, Bytes.zeros, List.take_replicate, Bytes.extend, ← size_eq, Bytes.zeros]
  congr 2
  omega

@[simp] theorem toList_put (block : Block) (start : Nat) (src : Bytes) :
    (block.put start src).toList =
      Bytes.overwrite (Bytes.extend block.toList (start + src.length)) start src := by
  have h : start + src.length ≤ (block.extend (start + src.length)).size :=
    block.le_size_extend _
  have hlen := Bytes.length_overwrite _ src start (by rw [← size_eq]; exact h)
  rw [← size_eq] at hlen
  rw [← toList_extend]
  refine (congrArg (List.take (block.extend _).size) (toList_write h)).trans ?_
  rw [List.take_append_of_le_length (Nat.le_of_eq hlen.symm),
    List.take_of_length_le (Nat.le_of_eq hlen)]

@[simp] theorem toList_ofList (bytes : Bytes) : (ofList bytes).toList = bytes := by
  simp [ofList, Bytes.overwrite, Bytes.extend]

@[simp] theorem toList_zeros (len : Nat) : (zeros len).toList = Bytes.zeros len := by
  simp [zeros, Bytes.extend]

@[simp] theorem slice_eq (block : Block) (start len : Nat) :
    block.slice start len = Bytes.slice block.toList start len := by
  have hsize := block.size_le
  unfold slice
  split
  · next h =>
    rw [ByteTree.readOnto_eq _ _ _ _ (by omega), toList_tree,
      Bytes.slice_append_left _ _ _ _ (by rw [← size_eq]; omega), List.append_nil,
      Bytes.slice, Bytes.slice, size_eq, ← List.length_drop,
      ← List.take_take, List.take_length]
  · next h =>
    rw [size_eq] at h
    rw [Bytes.slice, List.drop_eq_nil_of_le (by omega), List.take_nil]

@[simp] theorem get?_eq (block : Block) (i : Nat) : block.get? i = block.toList[i]? := by
  simp [get?, Bytes.slice, List.head?_take]

theorem readRange_eq_ok {block : Block} {start len : Nat}
    (h : start + len ≤ block.toList.length) :
    block.readRange start len = .ok (Bytes.slice block.toList start len) := by
  rw [← size_eq] at h
  rw [← slice_eq]
  exact if_pos h

theorem writeRange_eq_ok {block : Block} {src : Bytes} {start : Nat}
    (h : start + src.length ≤ block.toList.length) :
    block.writeRange start src = .ok (block.put start src) := by
  rw [← size_eq] at h
  exact if_pos h

/-- Within the block nothing but the range changes. -/
theorem toList_put_of_le {block : Block} {src : Bytes} {start : Nat}
    (h : start + src.length ≤ block.toList.length) :
    (block.put start src).toList = Bytes.overwrite block.toList start src := by
  rw [toList_put, Bytes.extend, Nat.sub_eq_zero_of_le h, Bytes.zeros, List.replicate_zero,
    List.append_nil]

end Block

end DemandPaging
