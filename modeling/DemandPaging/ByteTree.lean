/-
  Long runs of bytes of which few are not zero.

  A `ByteTree` of height `d` holds `span d` bytes in two halves, down to chunks of
  `chunkSize` bytes.  Parts that were never written take no room, and a range is
  read and written without looking at the rest.  `ByteTree.toList` is the run that
  a tree stands for; `readOnto_eq` and `toList_write` say that ranges are read from
  that run and written to it.
-/
import DemandPaging.Packed

namespace DemandPaging

/-- A tree of height `d` over chunks of bytes.  Trailing zeroes of a chunk may be
    missing, and a blank tree is all zeroes. -/
inductive ByteTree : (d : Nat) → Type where
  | blank {d : Nat} : ByteTree d
  | leaf (bytes : Packed) : ByteTree 0
  | fork {d : Nat} (left right : ByteTree d) : ByteTree (d + 1)
deriving Repr

namespace ByteTree

/-- The number of bytes in a chunk. -/
def chunkSize : Nat := 4096

/-- The number of bytes in a tree of height `d`. -/
def span : (d : Nat) → Nat
  | 0 => chunkSize
  | d + 1 => span d + span d

theorem span_succ (d : Nat) : span (d + 1) = span d + span d := rfl

theorem span_eq (d : Nat) : span d = chunkSize * Nat.pow 2 d := by
  induction d with
  | zero => rfl
  | succ d ih =>
    have double : Nat.pow 2 (d + 1) = Nat.pow 2 d * 2 := rfl
    rw [span_succ, ih, double, Nat.mul_two, Nat.mul_add]

/-- The least height, or one more, at which a tree has room for `size` bytes. -/
def heightFor (size : Nat) : Nat := (size / chunkSize).log2 + 1

theorem span_add (d k : Nat) : span d ≤ span (d + k) := by
  induction k with
  | zero => exact Nat.le_refl _
  | succ k ih => rw [← Nat.add_assoc, span_succ]; omega

theorem span_mono {a b : Nat} (h : a ≤ b) : span a ≤ span b := by
  obtain ⟨k, rfl⟩ := Nat.exists_eq_add_of_le h
  exact span_add a k

theorem le_span_heightFor (size : Nat) : size ≤ span (heightFor size) := by
  have hdiv := Nat.div_add_mod size chunkSize
  have hmod := Nat.mod_lt size (show chunkSize > 0 by decide)
  have hlog : size / chunkSize + 1 ≤ Nat.pow 2 (heightFor size) := Nat.lt_log2_self
  have hmul := Nat.mul_le_mul_left chunkSize hlog
  rw [← span_eq, Nat.mul_succ] at hmul
  omega

/-- The chunk of a tree of height 0. -/
def chunk : ByteTree 0 → Packed
  | blank => .empty
  | leaf bytes => bytes

/-- The first half. -/
def left {d : Nat} : ByteTree (d + 1) → ByteTree d
  | blank => blank
  | fork left _ => left

/-- The second half. -/
def right {d : Nat} : ByteTree (d + 1) → ByteTree d
  | blank => blank
  | fork _ right => right

/-- The bytes. -/
def toList : {d : Nat} → ByteTree d → Bytes
  | 0, t => (Bytes.extend t.chunk.toList chunkSize).take chunkSize
  | _ + 1, t => t.left.toList ++ t.right.toList

/-- The `len` bytes from `start` on, followed by `rest`. -/
def readOnto : {d : Nat} → ByteTree d → (start len : Nat) → (rest : Bytes) → Bytes
  | 0, t, start, len, rest =>
    let bytes := t.chunk.slice start len
    bytes ++ (Bytes.zeros (len - bytes.length) ++ rest)
  | d + 1, t, start, len, rest =>
    let half := span d
    if start + len ≤ half then t.left.readOnto start len rest
    else if half ≤ start then t.right.readOnto (start - half) len rest
    else t.left.readOnto start (half - start) (t.right.readOnto 0 (len - (half - start)) rest)

/-- The tree with the bytes from `start` on replaced by the `len` bytes of `src` from
    `first` on. -/
def write : {d : Nat} → ByteTree d → (start : Nat) → (src : Packed) → (first len : Nat) →
    ByteTree d
  | 0, t, start, src, first, len => leaf (t.chunk.copy start src first len)
  | d + 1, t, start, src, first, len =>
    let half := span d
    if start + len ≤ half then fork (t.left.write start src first len) t.right
    else if half ≤ start then fork t.left (t.right.write (start - half) src first len)
    else
      let before := half - start
      fork (t.left.write start src first before)
        (t.right.write 0 src (first + before) (len - before))

/-- The tree followed by zeroes, `k` levels higher. -/
def raise {d : Nat} (t : ByteTree d) : (k : Nat) → ByteTree (d + k)
  | 0 => t
  | k + 1 => fork (t.raise k) blank

@[simp] theorem length_toList {d : Nat} (t : ByteTree d) : t.toList.length = span d := by
  induction d with
  | zero => simp [toList, Bytes.extend, span]; omega
  | succ d ih => simp [toList, ih, span_succ]

@[simp] theorem toList_blank (d : Nat) : (blank : ByteTree d).toList = Bytes.zeros (span d) := by
  induction d with
  | zero => simp [toList, chunk, Bytes.extend, Bytes.zeros, span]
  | succ d ih => simp [toList, left, right, ih, span_succ, Bytes.zeros]

theorem readOnto_eq {d : Nat} (t : ByteTree d) (start len : Nat) (rest : Bytes)
    (h : start + len ≤ span d) :
    t.readOnto start len rest = Bytes.slice t.toList start len ++ rest := by
  induction d generalizing start len rest with
  | zero =>
    rw [span] at h
    simp only [readOnto, toList, Packed.slice_eq]
    rw [Bytes.slice_padded _ _ _ _ h, Bytes.extend, List.append_assoc]
  | succ d ih =>
    rw [span_succ] at h
    unfold readOnto toList
    simp only
    split
    · next hl => rw [ih _ _ _ _ hl, Bytes.slice_append_left _ _ _ _ (by simpa using hl)]
    · split
      · next hr =>
        rw [ih _ _ _ _ (by omega), Bytes.slice_append_right _ _ _ _ (by simpa using hr),
          length_toList]
      · rw [ih _ _ _ _ (by omega), ih _ _ _ _ (by omega),
          Bytes.slice_append_across _ _ _ _ (by simp; omega) (by simp; omega), length_toList,
          List.append_assoc]

theorem toList_write {d : Nat} (t : ByteTree d) (start : Nat) (src : Packed) (first len : Nat)
    (h : start + len ≤ span d) (hsrc : first + len ≤ src.toList.length) :
    (t.write start src first len).toList =
      Bytes.overwrite t.toList start (Bytes.slice src.toList first len) := by
  induction d generalizing start first len with
  | zero =>
    rw [span] at h
    simp only [write, toList, chunk, Packed.toList_copy]
    exact Bytes.padded_overwrite _ _ _ _ (by rw [Bytes.length_slice _ _ _ hsrc]; exact h)
  | succ d ih =>
    rw [span_succ] at h
    unfold write
    simp only
    split
    · next hl =>
      simp only [toList, left, right]
      rw [ih _ _ _ _ hl hsrc, Bytes.overwrite_append_left _ _ _ _
        (by simpa [Bytes.length_slice _ _ _ hsrc] using hl)]
    · split
      · next hr =>
        simp only [toList, left, right]
        rw [ih _ _ _ _ (by omega) hsrc, Bytes.overwrite_append_right _ _ _ _ (by simpa using hr),
          length_toList]
      · simp only [toList, left, right]
        rw [ih _ _ _ _ (by omega) (by omega), ih _ _ _ _ (by omega) (by omega),
          Bytes.overwrite_append_across _ _ _ _ (by simp; omega)
            (by rw [Bytes.length_slice _ _ _ hsrc]; simp; omega), length_toList,
          Bytes.take_slice _ _ _ _ (by omega), Bytes.drop_slice]

theorem toList_raise {d : Nat} (t : ByteTree d) (k : Nat) :
    (t.raise k).toList = t.toList ++ Bytes.zeros (span (d + k) - span d) := by
  induction k with
  | zero => simp [raise, Bytes.zeros]
  | succ k ih =>
    have hle := span_add d k
    have hsucc := span_succ (d + k)
    simp only [raise, toList, left, right, ih, toList_blank, List.append_assoc, Bytes.zeros,
      List.replicate_append_replicate]
    congr 2
    rw [← Nat.add_assoc, hsucc, Nat.add_eq]
    omega

end ByteTree

end DemandPaging
