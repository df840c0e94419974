/-
  Transfers between the kernel and the swap area.

  A page that is written out gets the first free slot, which it keeps only if the store
  took it; a page that is read back gives its slot up only if the store delivered it.
  What the store may do is a `Conduct`: how a read and a write may end.
-/
import DemandPaging.Proofs.Ends
import DemandPaging.SwapSpace

namespace DemandPaging

/-! ## Slots -/

/-- The positions of the items with a property are as many as the items. -/
theorem length_eq_countP {α : Type} {l : List α} {p : α → Bool} {is : List Nat} (hnodup : is.Nodup)
    (hmem : ∀ i, i ∈ is ↔ ∃ a, l[i]? = some a ∧ p a = true) : is.length = l.countP p := by
  have hcells : l.map some = (List.range l.length).map (l[·]?) := by
    refine List.ext_getElem? fun i => ?_
    rw [List.getElem?_map, List.getElem?_map]
    rcases Nat.lt_or_ge i l.length with hi | hi
    · rw [List.getElem?_range hi, List.getElem?_eq_getElem hi]
      simp
    · rw [List.getElem?_eq_none hi, List.getElem?_eq_none (by simpa using hi)]
      rfl
  have hcount : l.countP p = ((List.range l.length).filter fun i => (l[i]?).any p).length := by
    rw [← List.countP_eq_length_filter]
    have hmapped := congrArg (List.countP fun o : Option α => o.any p) hcells
    rw [List.countP_map, List.countP_map] at hmapped
    exact hmapped
  rw [hcount]
  refine ((List.perm_ext_iff_of_nodup hnodup (List.nodup_range.filter _)).2 fun i => ?_).length_eq
  rw [hmem, List.mem_filter, List.mem_range]
  constructor
  · rintro ⟨a, ha, hp⟩
    obtain ⟨hlt, -⟩ := List.getElem?_eq_some_iff.1 ha
    exact ⟨hlt, by rw [ha]; exact hp⟩
  · rintro ⟨-, hany⟩
    exact (Option.any_eq_true _ _).1 hany

section Owners

variable {xs ys : List (Option SlotOwner)}

theorem countP_isSome_of_join_eq_none (h : ∀ i : Nat, xs[i]?.join = none) :
    xs.countP (·.isSome) = 0 := by
  refine List.countP_eq_zero.2 fun a ha => ?_
  obtain ⟨i, hi⟩ := List.mem_iff_getElem?.1 ha
  have hnone := h i
  rw [hi, Option.join_some] at hnone
  rw [hnone]
  simp

/-- Slots behind the last that has an owner do not count. -/
theorem countP_isSome_congr (h : ∀ i : Nat, xs[i]?.join = ys[i]?.join) :
    xs.countP (·.isSome) = ys.countP (·.isSome) := by
  induction xs generalizing ys with
  | nil => exact (countP_isSome_of_join_eq_none fun i => (h i).symm).symm
  | cons x xs ih =>
    cases ys with
    | nil => exact countP_isSome_of_join_eq_none h
    | cons y ys =>
      have hhead : x = y := h 0
      rw [List.countP_cons, List.countP_cons, ih fun i => h (i + 1), hhead]

end Owners

namespace SlotTable

variable {table : SlotTable} {s t : SlotIndex} {o : SlotOwner}

theorem owner_eq : table.owner s = table.slots.toList[s]?.join := by
  rw [owner, Row.get?_eq]

theorem lt_size (h : (table.owner s).isSome = true) : s < table.size := by
  obtain ⟨o, ho⟩ := Option.isSome_iff_exists.1 h
  rw [owner_eq, Option.join_eq_some_iff] at ho
  rw [size, Row.size_eq]
  exact (List.getElem?_eq_some_iff.1 ho).1

/-- The next slot has no owner. -/
theorem owner_next : table.owner table.next = none := by
  rw [owner_eq, next_eq]
  rcases Nat.lt_or_ge (table.slots.toList.findIdx (·.isNone)) table.slots.toList.length with h | h
  · rw [List.getElem?_eq_getElem h, Option.join_some]
    have hnone := List.findIdx_getElem (w := h)
    rwa [Option.isNone_iff_eq_none] at hnone
  · rw [List.getElem?_eq_none h]
    rfl

theorem owner_allocate :
    (table.allocate o).2.owner s = if s = table.next then some o else table.owner s := by
  have hle := table.next_le_size
  have hplace : (table.allocate o).2.slots = place table.slots table.next o := rfl
  rw [owner_eq, owner_eq, hplace]
  unfold place
  split
  · next hlt =>
    rw [Row.size_eq] at hlt
    rw [Row.toList_set, List.getElem?_set, if_pos hlt]
    by_cases hs : s = table.next
    · rw [if_pos hs.symm, if_pos hs, Option.join_some]
    · rw [if_neg (Ne.symm hs), if_neg hs]
  · next hge =>
    rw [Row.size_eq] at hge
    have hlast : table.next = table.slots.toList.length := by omega
    rw [Row.toList_push, List.getElem?_append, hlast]
    rcases Nat.lt_trichotomy s table.slots.toList.length with h | h | h
    · rw [if_pos h, if_neg (Nat.ne_of_lt h)]
    · rw [if_neg (Nat.not_lt.2 (Nat.le_of_eq h.symm)), if_pos h, h, Nat.sub_self]
      rfl
    · rw [if_neg (Nat.lt_asymm h), if_neg (Nat.ne_of_gt h), List.getElem?_eq_none (Nat.le_of_lt h),
        List.getElem?_eq_none (by simp only [List.length_cons, List.length_nil]; omega)]

theorem deallocate_eq (h : table.owner s = some o) :
    ∃ table', table.deallocate s = .ok table' ∧
      ∀ t, table'.owner t = if t = s then none else table.owner t := by
  have hsome : (table.owner s).isSome = true := by rw [h]; rfl
  refine ⟨_, by rw [deallocate, Checked.require, if_pos hsome]; rfl, fun t => ?_⟩
  rw [owner_eq, owner_eq, Row.toList_set, List.getElem?_set]
  by_cases ht : t = s
  · rw [if_pos ht.symm, if_pos ht]
    split <;> rfl
  · rw [if_neg (Ne.symm ht), if_neg ht]

/-- Only a slot with an owner can be freed; it loses its owner, and no slot goes away. -/
theorem deallocate_eq_ok {table' : SlotTable} (h : table.deallocate s = .ok table') :
    (∃ o, table.owner s = some o) ∧ table'.size = table.size ∧
      ∀ t, table'.owner t = if t = s then none else table.owner t := by
  by_cases hsome : (table.owner s).isSome = true
  · obtain ⟨o, ho⟩ := Option.isSome_iff_exists.1 hsome
    obtain ⟨freed, hfree, howner⟩ := deallocate_eq ho
    cases h.symm.trans hfree
    refine ⟨⟨o, ho⟩, ?_, howner⟩
    rw [deallocate, Checked.require, if_pos hsome] at h
    cases h
    rw [size, size, Row.size_eq, Row.size_eq, Row.toList_set, List.length_set]
  · rw [deallocate, Checked.require, if_neg hsome] at h
    cases h

/-- A slot that was taken in vain is free again, but the table keeps its size. -/
theorem owner_tried {table' : SlotTable}
    (h : (table.allocate o).2.deallocate table.next = .ok table') :
    ∀ s, table'.owner s = table.owner s := by
  intro s
  rw [(deallocate_eq_ok h).2.2, owner_allocate]
  split
  · next hs => rw [hs, owner_next]
  · rfl

theorem owner_deallocateOwnedBy {pid : Pid} :
    (table.deallocateOwnedBy pid).2.owner s = (table.owner s).filter fun o => o.pid ≠ pid := by
  simp only [owner_eq, deallocateOwnedBy, Row.toList_map, List.getElem?_map]
  rcases table.slots.toList[s]? with _ | _ | o
  · rfl
  · rfl
  · by_cases ho : o.pid = pid <;> simp [belongsTo, Option.filter, ho]

/-- As many slots are in use as there are slots with an owner. -/
theorem inUse_eq_length {is : List SlotIndex} (hnodup : is.Nodup)
    (hmem : ∀ s, s ∈ is ↔ (table.owner s).isSome = true) : table.inUse = is.length := by
  rw [inUse, Row.countP_eq]
  refine (length_eq_countP hnodup fun s => ?_).symm
  rw [hmem, owner_eq]
  rcases table.slots.toList[s]? with _ | _ | o <;> simp

/-- As many slots are in use as have owners. -/
theorem inUse_congr {table' : SlotTable} (h : ∀ s, table'.owner s = table.owner s) :
    table'.inUse = table.inUse := by
  rw [inUse, inUse, Row.countP_eq, Row.countP_eq]
  refine countP_isSome_congr fun s => ?_
  rw [← owner_eq, ← owner_eq, h s]

/-- A slot that is freed is one less in use. -/
theorem inUse_freed {table' : SlotTable} (ho : table.owner s = some o)
    (h : ∀ t, table'.owner t = if t = s then none else table.owner t) :
    table'.inUse + 1 = table.inUse := by
  have hfreed : table'.inUse = (table.slots.toList.set s none).countP (·.isSome) := by
    rw [inUse, Row.countP_eq]
    refine countP_isSome_congr fun t => ?_
    rw [← owner_eq, h, owner_eq, List.getElem?_set]
    by_cases ht : t = s
    · rw [if_pos ht, if_pos ht.symm]
      split <;> rfl
    · rw [if_neg ht, if_neg (Ne.symm ht)]
  rw [owner_eq, Option.join_eq_some_iff] at ho
  obtain ⟨hlt, hs⟩ := List.getElem?_eq_some_iff.1 ho
  have hpos : 0 < table.slots.toList.countP (·.isSome) :=
    List.countP_pos_iff.2 ⟨some o, List.mem_of_getElem? ho, rfl⟩
  rw [hfreed, inUse, Row.countP_eq, List.countP_set hlt, hs]
  simp only [Option.isSome_some, if_true, Option.isSome_none, Bool.false_eq_true, if_false]
  omega

/-- A slot that is taken is one more in use. -/
theorem inUse_allocate : (table.allocate o).2.inUse = table.inUse + 1 := by
  have hnext : (table.allocate o).2.owner table.next = some o := by rw [owner_allocate, if_pos rfl]
  refine (inUse_freed hnext fun t => ?_).symm
  rw [owner_allocate]
  split
  · next ht => rw [ht, owner_next]
  · rfl

end SlotTable

/-! ## Stores -/

/-- How the reads and the writes of a store may end. -/
structure Conduct (σ : Type) where
  reads : σ → (offset len : Nat) → Except StoreError Bytes → σ → Prop
  writes : σ → (offset : Nat) → Bytes → Except StoreError Unit → σ → Prop

/-- The store conducts itself as said, but for violations in `V`.  Reads have the right
    length, or transfers of other lengths are in `V`. -/
structure Conduct.Holds {σ : Type} [BackingStore σ] (c : Conduct σ) (V : Violation → Prop) :
    Prop where
  read : ∀ s offset len, Ends V (BackingStore.read (σ := σ) offset len).run s (c.reads s offset len)
  write : ∀ s offset src,
    Ends V (BackingStore.write (σ := σ) offset src).run s (c.writes s offset src)
  length : ∀ {s offset len bytes s'}, c.reads s offset len (.ok bytes) s' →
    bytes.length = len ∨ V .frameBufferSize

theorem Conduct.Holds.allow {σ : Type} [BackingStore σ] {c : Conduct σ} {V V' : Violation → Prop}
    (hc : c.Holds V) (hV : ∀ v, V v → V' v) : c.Holds V' :=
  ⟨fun s offset len => (hc.read s offset len).allow hV,
    fun s offset src => (hc.write s offset src).allow hV, fun h => (hc.length h).imp_right (hV _)⟩

theorem Conduct.Holds.whenever {σ : Type} [BackingStore σ] {c : Conduct σ} {V : Violation → Prop}
    (hc : c.Holds V) : c.Holds fun _ => True :=
  hc.allow fun _ _ => trivial

/-- A store of which nothing is known, when every violation is allowed. -/
def Conduct.any (σ : Type) : Conduct σ := ⟨fun _ _ _ _ _ => True, fun _ _ _ _ _ => True⟩

theorem Conduct.any_holds {σ : Type} [BackingStore σ] : (any σ).Holds fun _ => True :=
  ⟨fun _ _ _ => Checked.Ends.imp (Checked.ends_true fun _ _ => trivial) fun _ _ => trivial,
    fun _ _ _ => Checked.Ends.imp (Checked.ends_true fun _ _ => trivial) fun _ _ => trivial,
    fun _ => .inr trivial⟩

/-! ## Transfers -/

namespace SwapSpace

variable {σ : Type} [BackingStore σ] {c : Conduct σ} {V : Violation → Prop} {swap : SwapSpace σ}
  {owner : SlotOwner} {page : Bytes} {s : SlotIndex}

/-- What a page written to slot `s`, or refused by the store, leaves behind. -/
inductive TransferredOut (c : Conduct σ) (s : SlotIndex) (page : Bytes) (swap : SwapSpace σ) :
    Except StoreError Unit → SwapSpace σ → Prop where
  | done {store} (hstore : c.writes swap.store (swap.offset s) page (.ok ()) store) :
    TransferredOut c s page swap (.ok ()) { swap with store, writes := swap.writes + 1 }
  | failed {store e} (hstore : c.writes swap.store (swap.offset s) page (.error e) store) :
    TransferredOut c s page swap (.error e) { swap with store }

theorem ends_transferOut (hc : c.Holds V) {Q : Except StoreError Unit → SwapSpace σ → Prop}
    (hQ : ∀ r swap', TransferredOut c s page swap r swap' → Q r swap') :
    Ends V (transferOut s page).run swap Q := by
  unfold transferOut onStore
  simp only [ends_bind, ends_get, ends_within, ends_modify]
  refine (hc.write _ _ _).imp ?_
  rintro (e | ⟨⟩) store hstore
  · exact hQ _ _ (.failed hstore)
  · exact hQ _ _ (.done hstore)

/-- What a page read from slot `s`, or not delivered by the store, leaves behind. -/
inductive TransferredIn (c : Conduct σ) (s : SlotIndex) (swap : SwapSpace σ) :
    Except StoreError Bytes → SwapSpace σ → Prop where
  | done {store page} (hstore : c.reads swap.store (swap.offset s) swap.pageSize (.ok page) store) :
    TransferredIn c s swap (.ok page) { swap with store, reads := swap.reads + 1 }
  | failed {store e}
    (hstore : c.reads swap.store (swap.offset s) swap.pageSize (.error e) store) :
    TransferredIn c s swap (.error e) { swap with store }

theorem ends_transferIn (hc : c.Holds V) {Q : Except StoreError Bytes → SwapSpace σ → Prop}
    (hQ : ∀ r swap', TransferredIn c s swap r swap' → Q r swap') :
    Ends V (transferIn s swap.pageSize).run swap Q := by
  unfold transferIn onStore
  simp only [ends_bind, ends_get, ends_within, ends_modify]
  refine (hc.read _ _ _).imp ?_
  rintro (e | page) store hstore
  · exact hQ _ _ (.failed hstore)
  · exact hQ _ _ (.done hstore)

/-- A slot that has an owner may be written. -/
theorem ends_writePage (hc : c.Holds V) (hlen : page.length = swap.pageSize)
    (hs : (swap.slots.owner s).isSome = true) {Q : Except StoreError Unit → SwapSpace σ → Prop}
    (hQ : ∀ r swap', TransferredOut c s page swap r swap' → Q r swap') :
    Ends V (writePage s page).run swap Q := by
  unfold writePage
  simp only [ends_bind, ends_get, ends_lift, Checked.require, hlen, hs, decide_true, if_true,
    Checked.ends_ok]
  exact ends_transferOut hc hQ

/-- A slot that has an owner may be read. -/
theorem ends_readPage (hc : c.Holds V) (hs : (swap.slots.owner s).isSome = true)
    {Q : Except StoreError Bytes → SwapSpace σ → Prop}
    (hQ : ∀ r swap', TransferredIn c s swap r swap' → Q r swap') :
    Ends V (readPage s swap.pageSize).run swap Q := by
  unfold readPage
  simp only [ends_bind, ends_get, ends_lift, Checked.require, hs, decide_true, if_true,
    Checked.ends_ok]
  exact ends_transferIn hc hQ

/-- What a page written out, or refused by the store, leaves behind. -/
inductive SwappedOut (c : Conduct σ) (owner : SlotOwner) (page : Bytes) (swap : SwapSpace σ) :
    Except StoreError SlotIndex → SwapSpace σ → Prop where
  | done {store} (hstore : c.writes swap.store (swap.offset swap.slots.next) page (.ok ()) store) :
    SwappedOut c owner page swap (.ok swap.slots.next)
      { swap with store, slots := (swap.slots.allocate owner).2, writes := swap.writes + 1 }
  | failed {store slots e}
    (hstore : c.writes swap.store (swap.offset swap.slots.next) page (.error e) store)
    (hslots : ∀ t, slots.owner t = swap.slots.owner t) :
    SwappedOut c owner page swap (.error e) { swap with store, slots }

/-- The slot that a page was written to in vain is given back. -/
theorem ends_swapOut_slots (hc : c.Holds V) (hlen : page.length = swap.pageSize)
    {Q : Except StoreError SlotIndex → SwapSpace σ → Prop}
    (hdone : ∀ store, c.writes swap.store (swap.offset swap.slots.next) page (.ok ()) store →
      Q (.ok swap.slots.next)
        { swap with store, slots := (swap.slots.allocate owner).2, writes := swap.writes + 1 })
    (hfailed : ∀ store slots e,
      c.writes swap.store (swap.offset swap.slots.next) page (.error e) store →
      (swap.slots.allocate owner).2.deallocate swap.slots.next = .ok slots →
      Q (.error e) { swap with store, slots }) :
    Ends V (swapOut owner page).run swap Q := by
  have hown : (swap.slots.allocate owner).2.owner swap.slots.next = some owner := by
    rw [SlotTable.owner_allocate, if_pos rfl]
  obtain ⟨slots, hfree, -⟩ := SlotTable.deallocate_eq hown
  unfold swapOut
  simp only [ends_bind, ends_get, ends_set, ends_lift, ends_observe, Checked.require, hlen,
    decide_true, if_true, Checked.ends_ok]
  refine ends_transferOut hc ?_
  rintro _ _ (hstore | hstore)
  · exact hdone _ hstore
  · simp only [ends_bind, ends_get, ends_set, ends_lift, ends_throw, free, allocate]
    rw [show (swap.slots.allocate owner).1 = swap.slots.next from rfl, hfree]
    exact hfailed _ slots _ hstore hfree

theorem ends_swapOut (hc : c.Holds V) (hlen : page.length = swap.pageSize)
    {Q : Except StoreError SlotIndex → SwapSpace σ → Prop}
    (hQ : ∀ r swap', SwappedOut c owner page swap r swap' → Q r swap') :
    Ends V (swapOut owner page).run swap Q :=
  ends_swapOut_slots hc hlen (fun _ hstore => hQ _ _ (.done hstore))
    fun _ _ _ hstore hfree => hQ _ _ (.failed hstore (SlotTable.owner_tried hfree))

/-- What a page read back, or not delivered by the store, leaves behind. -/
inductive SwappedIn (c : Conduct σ) (s : SlotIndex) (swap : SwapSpace σ) :
    Except StoreError Bytes → SwapSpace σ → Prop where
  | done {store slots page}
    (hstore : c.reads swap.store (swap.offset s) swap.pageSize (.ok page) store)
    (hslots : ∀ t, slots.owner t = if t = s then none else swap.slots.owner t) :
    SwappedIn c s swap (.ok page) { swap with store, slots, reads := swap.reads + 1 }
  | failed {store e}
    (hstore : c.reads swap.store (swap.offset s) swap.pageSize (.error e) store) :
    SwappedIn c s swap (.error e) { swap with store }

/-- The slot that a page was read from is freed, unless the store did not deliver. -/
theorem ends_swapIn_slots (hc : c.Holds V) (hs : (swap.slots.owner s).isSome = true)
    {Q : Except StoreError Bytes → SwapSpace σ → Prop}
    (hdone : ∀ store slots page,
      c.reads swap.store (swap.offset s) swap.pageSize (.ok page) store →
      swap.slots.deallocate s = .ok slots →
      Q (.ok page) { swap with store, slots, reads := swap.reads + 1 })
    (hfailed : ∀ store e, c.reads swap.store (swap.offset s) swap.pageSize (.error e) store →
      Q (.error e) { swap with store }) :
    Ends V (swapIn s swap.pageSize).run swap Q := by
  obtain ⟨o, ho⟩ := Option.isSome_iff_exists.1 hs
  obtain ⟨slots, hfree, -⟩ := SlotTable.deallocate_eq ho
  unfold swapIn
  simp only [ends_bind, ends_get, ends_lift, Checked.require, decide_true, if_true, hs,
    Checked.ends_ok]
  refine ends_transferIn hc ?_
  rintro _ _ (hstore | hstore)
  · simp only [ends_set, ends_pure, free]
    rw [hfree]
    exact hdone _ slots _ hstore hfree
  · exact hfailed _ _ hstore

theorem ends_swapIn (hc : c.Holds V) (hs : (swap.slots.owner s).isSome = true)
    {Q : Except StoreError Bytes → SwapSpace σ → Prop}
    (hQ : ∀ r swap', SwappedIn c s swap r swap' → Q r swap') :
    Ends V (swapIn s swap.pageSize).run swap Q :=
  ends_swapIn_slots hc hs
    (fun _ _ _ hstore hfree => hQ _ _ (.done hstore (SlotTable.deallocate_eq_ok hfree).2.2))
    fun _ _ hstore => hQ _ _ (.failed hstore)

end SwapSpace

end DemandPaging
