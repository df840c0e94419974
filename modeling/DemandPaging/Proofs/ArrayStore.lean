/-
  Stores that are arrays of bytes.

  Such a store holds a byte at every place.  A read that succeeds answers the bytes that are
  there, a write that succeeds replaces bytes, and nothing else changes any: a call that
  fails leaves all of them as they were.  The store in memory is one (`MemoryStore.isArray`).
-/
import DemandPaging.Proofs.Fault
import DemandPaging.Proofs.Ranges

namespace DemandPaging

/-- The `len` bytes from `offset` on. -/
def bytesAt (content : Nat → UInt8) (offset len : Nat) : Bytes :=
  (List.range len).map fun i => content (offset + i)

/-- The bytes with those from `offset` on replaced by `src`. -/
def writeAt (content : Nat → UInt8) (offset : Nat) (src : Bytes) (i : Nat) : UInt8 :=
  if i < offset then content i else src[i - offset]?.getD (content i)

/-- The store is an array of bytes, which `content` shows.  Its calls stop with violations in
    `V` only. -/
structure IsArray {σ : Type} [BackingStore σ] (V : Violation → Prop) (content : σ → Nat → UInt8) :
    Prop where
  read : ∀ s offset len, Ends V (BackingStore.read (σ := σ) offset len).run s fun r s' =>
    content s' = content s ∧ ∀ page, r = .ok page → page = bytesAt (content s) offset len
  write : ∀ s offset src, Ends V (BackingStore.write (σ := σ) offset src).run s fun r s' =>
    (r = .ok () → content s' = writeAt (content s) offset src) ∧
      ∀ e, r = .error e → content s' = content s

section Bytes

variable {content : Nat → UInt8} {offset start len : Nat} {src : Bytes}

@[simp] theorem length_bytesAt : (bytesAt content offset len).length = len := by
  simp [bytesAt]

theorem getElem?_bytesAt {i : Nat} :
    (bytesAt content offset len)[i]? = if i < len then some (content (offset + i)) else none := by
  unfold bytesAt
  rw [List.getElem?_map]
  by_cases hi : i < len
  · rw [List.getElem?_range hi, if_pos hi, Option.map_some]
  · rw [List.getElem?_eq_none (by simpa using hi), if_neg hi, Option.map_none]

/-- What was written is there. -/
theorem bytesAt_writeAt_self : bytesAt (writeAt content offset src) offset src.length = src := by
  refine List.ext_getElem? fun i => ?_
  rw [getElem?_bytesAt]
  split
  · next hi =>
    rw [writeAt, if_neg (by omega), Nat.add_sub_cancel_left, List.getElem?_eq_getElem hi]
    rfl
  · next hi => rw [List.getElem?_eq_none (by omega)]

theorem writeAt_of_apart {i : Nat} (h : i < offset ∨ offset + src.length ≤ i) :
    writeAt content offset src i = content i := by
  unfold writeAt
  split
  · rfl
  · rw [List.getElem?_eq_none (by omega)]
    rfl

@[simp] theorem writeAt_nil : writeAt content offset [] = content :=
  funext fun i => writeAt_of_apart (Nat.lt_or_ge i offset)

theorem bytesAt_congr {content' : Nat → UInt8}
    (h : ∀ i < len, content' (offset + i) = content (offset + i)) :
    bytesAt content' offset len = bytesAt content offset len :=
  List.map_congr_left fun i hi => h i (List.mem_range.1 hi)

/-- What lies apart from a write stays there. -/
theorem bytesAt_writeAt_apart (h : start + len ≤ offset ∨ offset + src.length ≤ start) :
    bytesAt (writeAt content offset src) start len = bytesAt content start len :=
  bytesAt_congr fun i hi => writeAt_of_apart (by omega)

theorem slice_bytesAt {n : Nat} (h : start + n ≤ len) :
    Bytes.slice (bytesAt content offset len) start n = bytesAt content (offset + start) n := by
  refine List.ext_getElem? fun i => ?_
  rw [Bytes.getElem?_slice, getElem?_bytesAt, getElem?_bytesAt]
  split
  · rw [if_pos (by omega), Nat.add_assoc]
  · rfl

theorem bytesAt_append {n : Nat} :
    bytesAt content offset len ++ bytesAt content (offset + len) n =
      bytesAt content offset (len + n) := by
  simp only [bytesAt, List.range_add, List.map_append, List.map_map, Nat.add_assoc]
  rfl

/-- A write inside a range is one to the bytes that are there. -/
theorem bytesAt_writeAt_within (hlow : start ≤ offset) (hhigh : offset + src.length ≤ start + len) :
    bytesAt (writeAt content offset src) start len =
      Bytes.overwrite (bytesAt content start len) (offset - start) src := by
  refine List.ext_getElem? fun i => ?_
  rw [Bytes.getElem?_overwrite _ _ _ _ (by rw [length_bytesAt]; omega), getElem?_bytesAt,
    getElem?_bytesAt]
  unfold writeAt
  by_cases hin : offset - start ≤ i ∧ i < offset - start + src.length
  · rw [if_pos hin, if_pos (by omega), if_neg (by omega),
      show start + i - offset = i - (offset - start) by omega, List.getElem?_eq_getElem (by omega)]
    rfl
  · rw [if_neg hin]
    by_cases hlt : start + i < offset
    · rw [if_pos hlt]
    · rw [if_neg hlt, List.getElem?_eq_none (l := src) (by omega)]
      rfl

end Bytes

/-- How a store that is an array conducts itself. -/
def arrayConduct {σ : Type} (content : σ → Nat → UInt8) : Conduct σ where
  reads s offset len r s' :=
    content s' = content s ∧ ∀ page, r = .ok page → page = bytesAt (content s) offset len
  writes s offset src r s' :=
    (r = .ok () → content s' = writeAt (content s) offset src) ∧
      ∀ e, r = .error e → content s' = content s

theorem IsArray.holds {σ : Type} [BackingStore σ] {V : Violation → Prop} {content : σ → Nat → UInt8}
    (h : IsArray V content) : (arrayConduct content).Holds V where
  read := h.read
  write := h.write
  length hread := by
    rw [hread.2 _ rfl]
    exact .inl length_bytesAt

/-- The array has `size` bytes so far, and never fewer later.  A write that succeeds makes it reach
    to the end of what is written; a read of bytes that are there succeeds in a state that is
    `readable`. -/
structure IsGrowing {σ : Type} [BackingStore σ] (V : Violation → Prop) (content : σ → Nat → UInt8)
    (size : σ → Nat) (readable : σ → Prop) : Prop extends IsArray V content where
  grows_read : ∀ s offset len, Ends V (BackingStore.read (σ := σ) offset len).run s fun r s' =>
    size s ≤ size s' ∧ (readable s → offset + len ≤ size s → ∃ page, r = .ok page)
  grows_write : ∀ s offset src, Ends V (BackingStore.write (σ := σ) offset src).run s fun r s' =>
    size s ≤ size s' ∧ (r = .ok () → offset + src.length ≤ size s')

/-- How an array that grows conducts itself. -/
def growingConduct {σ : Type} (content : σ → Nat → UInt8) (size : σ → Nat) (readable : σ → Prop) :
    Conduct σ where
  reads s offset len r s' := (arrayConduct content).reads s offset len r s' ∧
    size s ≤ size s' ∧ (readable s → offset + len ≤ size s → ∃ page, r = .ok page)
  writes s offset src r s' := (arrayConduct content).writes s offset src r s' ∧
    size s ≤ size s' ∧ (r = .ok () → offset + src.length ≤ size s')

theorem IsGrowing.grows {σ : Type} [BackingStore σ] {V : Violation → Prop}
    {content : σ → Nat → UInt8} {size : σ → Nat} {readable : σ → Prop}
    (h : IsGrowing V content size readable) : (growingConduct content size readable).Holds V where
  read s offset len := (h.read s offset len).and (h.grows_read s offset len)
  write s offset src := (h.write s offset src).and (h.grows_write s offset src)
  length hread := h.toIsArray.holds.length hread.1

/-! ## Slots -/

namespace SwapSpace

variable {σ : Type} {content : σ → Nat → UInt8} {swap swap' : SwapSpace σ} {o : SlotOwner}
  {page : Bytes} {s t : SlotIndex}

/-- The bytes at the place of a slot. -/
def slotBytes (content : σ → Nat → UInt8) (swap : SwapSpace σ) (s : SlotIndex) : Bytes :=
  bytesAt (content swap.store) (swap.offset s) swap.pageSize

/-- A page that has been written out is in its slot. -/
theorem SwappedOut.slotBytes_self (h : SwappedOut (arrayConduct content) o page swap (.ok s) swap')
    (hlen : page.length = swap.pageSize) : swap'.slotBytes content s = page := by
  cases h with
  | done hstore =>
    change bytesAt (content _) (swap.offset swap.slots.next) swap.pageSize = page
    rw [hstore.1 rfl, ← hlen]
    exact bytesAt_writeAt_self

/-- Writing a page out changes no other slot. -/
theorem SwappedOut.slotBytes_ne {r : Except StoreError SlotIndex}
    (h : SwappedOut (arrayConduct content) o page swap r swap') (hlen : page.length = swap.pageSize)
    (ht : r ≠ .ok t) : swap'.slotBytes content t = swap.slotBytes content t := by
  cases h with
  | done hstore =>
    have hne : t ≠ swap.slots.next := fun heq => ht (congrArg _ heq.symm)
    unfold slotBytes
    rw [hstore.1 rfl]
    refine bytesAt_writeAt_apart ?_
    rw [hlen]
    exact Bytes.unit_apart hne
  | failed hstore =>
    unfold slotBytes
    rw [hstore.2 _ rfl]
    rfl

/-- A page is written out to a slot that was free. -/
theorem SwappedOut.owner_eq_none {c : Conduct σ} (h : SwappedOut c o page swap (.ok s) swap') :
    swap.slots.owner s = none := by
  cases h with
  | done => exact SlotTable.owner_next

/-- Reading a page back changes no slot. -/
theorem SwappedIn.slotBytes {r : Except StoreError Bytes}
    (h : SwappedIn (arrayConduct content) s swap r swap') :
    swap'.slotBytes content t = swap.slotBytes content t := by
  unfold SwapSpace.slotBytes
  cases h with
  | done hstore => rw [hstore.1]; rfl
  | failed hstore => rw [hstore.1]; rfl

/-- A page that is read back is what the slot holds. -/
theorem SwappedIn.page_eq (h : SwappedIn (arrayConduct content) s swap (.ok page) swap') :
    page = swap.slotBytes content s := by
  cases h with
  | done hstore => exact hstore.2 _ rfl

end SwapSpace

namespace Kernel

variable {σ : Type} {content : σ → Nat → UInt8} {k k' : Kernel σ} {p : Process} {e : PageEntry}
  {s t : SlotIndex} {page : Bytes}

/-- Reading a page back, or from an image, changes no slot. -/
theorem Fetched.slotBytes {r : Except PagingError Bytes}
    (hfetch : Fetched (arrayConduct content) p e k r k') :
    k'.swap.slotBytes content t = k.swap.slotBytes content t := by
  cases hfetch with
  | swapped _ hswap => exact hswap.slotBytes
  | image => rfl
  | zero => rfl

/-- A page that has come from swap is what its slot held. -/
theorem Fetched.page_eq (hfetch : Fetched (arrayConduct content) p e k (.ok page) k')
    (hs : e.state = .swapped s) : page = k.swap.slotBytes content s := by
  generalize hresult : Except.ok page = result at hfetch
  cases hfetch with
  | image habsent => cases habsent.symm.trans hs
  | zero habsent => cases habsent.symm.trans hs
  | @swapped t r swap hs' hswap =>
    obtain rfl := PageState.swapped.inj (hs.symm.trans hs')
    cases r with
    | error _ => cases hresult
    | ok _ =>
      cases hresult
      exact hswap.page_eq

end Kernel

/-! ## Blocks -/

namespace Block

variable {block : Block} {offset len : Nat} {src : Bytes}

/-- The byte at a place, or zero past the end. -/
def byte (block : Block) (i : Nat) : UInt8 := block.toList[i]?.getD 0

@[simp] theorem byte_empty : empty.byte = fun _ => 0 := by
  funext i
  simp [byte]

/-- A range that is there, or is empty. -/
theorem slice_eq_bytesAt (h : 0 < len → offset + len ≤ block.size) :
    block.slice offset len = bytesAt block.byte offset len := by
  rw [size_eq] at h
  refine List.ext_getElem? fun i => ?_
  rw [slice_eq, Bytes.getElem?_slice, getElem?_bytesAt]
  split
  · next hi =>
    have hin : offset + len ≤ block.toList.length := h (Nat.zero_lt_of_lt hi)
    unfold byte
    rw [List.getElem?_eq_getElem (by omega)]
    rfl
  · rfl

/-- The room that is made for a write is filled with zeroes, which are there already. -/
theorem byte_put : (block.put offset src).byte = writeAt block.byte offset src := by
  funext i
  have hroom : offset + src.length ≤ (Bytes.extend block.toList (offset + src.length)).length := by
    rw [Bytes.extend, List.length_append, Bytes.length_zeros]
    omega
  have hold : (Bytes.extend block.toList (offset + src.length))[i]?.getD 0 = block.byte i := by
    unfold Bytes.extend Bytes.zeros byte
    rw [List.getElem?_append]
    split
    · rfl
    · next hi =>
      rw [List.getElem?_replicate, List.getElem?_eq_none (l := block.toList) (by omega)]
      split <;> rfl
  unfold writeAt
  rw [← hold, byte, toList_put, Bytes.getElem?_overwrite _ _ _ _ hroom]
  by_cases hlow : i < offset
  · rw [if_pos hlow, if_neg (by omega)]
  · rw [if_neg hlow]
    by_cases hhigh : i < offset + src.length
    · rw [if_pos (by omega), List.getElem?_eq_getElem (by omega)]
      rfl
    · rw [if_neg (by omega), List.getElem?_eq_none (l := src) (by omega)]
      rfl

theorem size_put : (block.put offset src).size = max block.size (offset + src.length) := by
  have hroom : (Bytes.extend block.toList (offset + src.length)).length =
      max block.size (offset + src.length) := by
    rw [Bytes.extend, List.length_append, Bytes.length_zeros, size_eq]
    omega
  rw [size_eq, toList_put, Bytes.length_overwrite _ _ _ (by omega), hroom]

end Block

/-! ## The store in memory -/

namespace MemoryStore

/-- The byte at a place, or zero past the end. -/
def content (store : MemoryStore) (i : Nat) : UInt8 := store.bytes.toList[i]?.getD 0

theorem isArray {V : Violation → Prop} : IsArray V content where
  read s offset len := by
    change Ends _ (read offset len).run s _
    unfold read
    simp only [ends_bind, ends_get, ends_modify, ends_ite, ends_throw, ends_pure]
    refine ⟨fun _ => ⟨rfl, (by simp)⟩, fun _ => ⟨fun _ => ⟨rfl, (by simp)⟩, fun hroom => ⟨rfl, ?_⟩⟩⟩
    rintro _ ⟨⟩
    exact Block.slice_eq_bytesAt fun _ => Nat.not_lt.1 hroom
  write s offset src := by
    change Ends _ (write offset src).run s _
    unfold write
    simp only [ends_bind, ends_get, ends_modify, ends_ite, ends_throw]
    refine ⟨fun _ => ⟨(by simp), fun _ _ => rfl⟩, fun _ => ⟨fun _ => ⟨(by simp), fun _ _ => rfl⟩,
      fun _ => ⟨fun _ => Block.byte_put, (by simp)⟩⟩⟩

/-- The next read is not one of those that fail. -/
def Readable (store : MemoryStore) : Prop := store.failingReads.contains store.reads = false

theorem isGrowing {V : Violation → Prop} :
    IsGrowing V content (fun store => store.bytes.size) Readable where
  toIsArray := isArray
  grows_read s offset len := by
    change Ends _ (read offset len).run s _
    unfold read
    simp only [ends_bind, ends_get, ends_modify, ends_ite, ends_throw, ends_pure]
    refine ⟨fun hfail => ⟨Nat.le_refl _, fun hfine => ?_⟩, fun _ => ⟨fun hshort => ⟨Nat.le_refl _, ?_⟩,
      fun _ => ⟨Nat.le_refl _, fun _ _ => ⟨_, rfl⟩⟩⟩⟩
    · rw [hfine] at hfail
      cases hfail
    · exact fun _ hroom => absurd hroom (Nat.not_le.2 hshort)
  grows_write s offset src := by
    change Ends _ (write offset src).run s _
    unfold write
    simp only [ends_bind, ends_get, ends_modify, ends_ite, ends_throw]
    refine ⟨fun _ => ⟨Nat.le_refl _, (by simp)⟩, fun _ => ⟨fun _ => ⟨Nat.le_refl _, (by simp)⟩,
      fun _ => ?_⟩⟩
    rw [Block.size_put]
    exact ⟨Nat.le_max_left _ _, fun _ => Nat.le_max_right _ _⟩

end MemoryStore

end DemandPaging
