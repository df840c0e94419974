/-
  The swap area: page-sized slots on a store.  Slot `n` starts at byte
  `n * pageSize`; each slot is free, or belongs to the page whose evicted content
  it holds.

  A failed transfer leaves the owners of the slots as they were: a page that
  could not be written gives its new slot up, a page that could not be read
  keeps its slot.
-/
import DemandPaging.Row
import DemandPaging.Store

namespace DemandPaging

/-! ## Slots -/

/-- The page whose evicted content a slot holds. -/
structure SlotOwner where
  pid : Pid
  vpn : Vpn
deriving DecidableEq, Repr

/-- A growable row of slots, each free or with its owner.  A search for a free slot
    begins at `start`, before which there is none. -/
structure SlotTable where
  slots : Row (Option SlotOwner) := .empty
  start : Nat := 0
  taken : ∀ i < start, slots.toList[i]? ≠ some none := by simp
deriving DecidableEq, Repr

namespace SlotTable

/-- The number of slots, free ones included. -/
def size (table : SlotTable) : Nat := table.slots.size

/-- The number of slots that have an owner. -/
def inUse (table : SlotTable) : Nat := table.slots.countP (·.isSome)

/-- The owner of a slot, if it has one. -/
def owner (table : SlotTable) (slot : SlotIndex) : Option SlotOwner := (table.slots.get? slot).join

/-- The first free slot, or the number of a new one if there is none. -/
def next (table : SlotTable) : Nat :=
  (table.slots.findFrom? (·.isNone) table.start).getD table.slots.size

/-- Slots before `start` need no search: the next slot is the first free one of all. -/
theorem next_eq (table : SlotTable) : table.next = table.slots.toList.findIdx (·.isNone) := by
  obtain ⟨slots, start, taken⟩ := table
  simp only [next, Row.findFrom?_eq, Row.size_eq]
  generalize slots.toList = xs at *
  have skipped : ¬ (xs.take start).findIdx (·.isNone) < (xs.take start).length := by
    rw [List.findIdx_lt_length]
    rintro ⟨x, hx, hnone⟩
    obtain ⟨i, hi, rfl⟩ := List.getElem_of_mem hx
    simp only [List.length_take] at hi
    simp only [List.getElem_take, Option.isNone_iff_eq_none] at hnone
    exact taken i (by omega) (by rw [List.getElem?_eq_getElem (by omega), hnone])
  have whole : (xs.take start ++ xs.drop start).findIdx (·.isNone) =
      (xs.drop start).findIdx (·.isNone) + (xs.take start).length := by
    rw [List.findIdx_append, if_neg skipped]
  rw [List.take_append_drop, List.length_take] at whole
  rw [whole]
  cases h : (xs.drop start).findIdx? (·.isNone) with
  | none =>
    rw [List.findIdx?_eq_none_iff_findIdx_eq.mp h, List.length_drop]
    simp only [Option.map_none, Option.getD_none]
    omega
  | some i =>
    obtain ⟨hlt, heq⟩ := List.findIdx?_eq_some_iff_findIdx_eq.mp h
    rw [heq]
    simp only [List.length_drop] at hlt
    simp only [Option.map_some, Option.getD_some]
    omega

theorem next_le_size (table : SlotTable) : table.next ≤ table.slots.toList.length := by
  rw [next_eq]; exact List.findIdx_le_length

/-- No slot before the next one is free. -/
theorem taken_of_lt_next {table : SlotTable} {i : Nat} (h : i < table.next) :
    table.slots.toList[i]? ≠ some none := by
  have hle := table.next_le_size
  rw [List.getElem?_eq_getElem (by omega)]
  rw [next_eq] at h
  have hsome := List.not_of_lt_findIdx h
  intro hnone
  simp [Option.some.inj hnone] at hsome

/-- Puts `owner` into a slot, which is added at the end if it is not there. -/
def place (slots : Row (Option SlotOwner)) (slot : Nat) (owner : SlotOwner) :
    Row (Option SlotOwner) :=
  if slot < slots.size then slots.set slot (some owner) else slots.push (some owner)

/-- With an owner in the next slot there is no free slot up to it. -/
theorem taken_place (table : SlotTable) (owner : SlotOwner) :
    ∀ i < table.next + 1, (place table.slots table.next owner).toList[i]? ≠ some none := by
  intro i hi
  have hle := table.next_le_size
  unfold place
  rw [Row.size_eq]
  split
  · next hlt =>
    rw [Row.toList_set]
    by_cases h : table.next = i
    · rw [← h, List.getElem?_set_self hlt]; simp
    · rw [List.getElem?_set_ne h]; exact taken_of_lt_next (by omega)
  · rw [Row.toList_push]
    by_cases h : i < table.next
    · rw [List.getElem?_append_left (by omega)]; exact taken_of_lt_next h
    · rw [List.getElem?_append_right (by omega), show i - table.slots.toList.length = 0 by omega]
      simp

/-- Gives the first free slot to `owner`, a new one if there is none. -/
def allocate (table : SlotTable) (owner : SlotOwner) : SlotIndex × SlotTable :=
  let slot := table.next
  (slot, ⟨place table.slots slot owner, slot + 1, table.taken_place owner⟩)

/-- Frees a slot that has an owner. -/
def deallocate (table : SlotTable) (slot : SlotIndex) : Checked SlotTable := do
  Checked.require (table.owner slot).isSome (.slotNotAllocated slot)
  return {
    slots := table.slots.set slot none
    start := min table.start slot
    taken := by
      intro i hi
      rw [Row.toList_set, List.getElem?_set_ne (by omega)]
      exact table.taken i (by omega) }

/-- The slot belongs to a page of process `pid`. -/
def belongsTo (pid : Pid) (slot : Option SlotOwner) : Bool := slot.any (·.pid == pid)

/-- Frees every slot of process `pid`, and says how many there were. -/
def deallocateOwnedBy (table : SlotTable) (pid : Pid) : Nat × SlotTable :=
  (table.slots.countP (belongsTo pid),
    { slots := table.slots.map fun slot => if belongsTo pid slot then none else slot })

end SlotTable

/-! ## Transfers -/

/-- The swap area on a store, with the number of pages read and written.  Like the counts of the
    kernel these two stay below 2^64. -/
structure SwapSpace (σ : Type) where
  pageSize : Nat
  store : σ
  slots : SlotTable := {}
  reads : Nat := 0
  writes : Nat := 0
deriving DecidableEq, Repr

namespace SwapSpace

variable {σ : Type}

/-- Where a slot starts in the store. -/
def offset (swap : SwapSpace σ) (slot : SlotIndex) : Nat := slot * swap.pageSize

/-- Gives the first free slot to `owner`. -/
def allocate (swap : SwapSpace σ) (owner : SlotOwner) : SlotIndex × SwapSpace σ :=
  let (slot, slots) := swap.slots.allocate owner
  (slot, { swap with slots })

/-- Frees a slot. -/
def free (swap : SwapSpace σ) (slot : SlotIndex) : Checked (SwapSpace σ) := do
  return { swap with slots := ← swap.slots.deallocate slot }

/-- Frees every slot of process `pid`, and says how many there were. -/
def freeAll (swap : SwapSpace σ) (pid : Pid) : Nat × SwapSpace σ :=
  let (count, slots) := swap.slots.deallocateOwnedBy pid
  (count, { swap with slots })

section Transfers

variable [BackingStore σ]

/-- An action on the store. -/
def onStore {α : Type} (act : Action σ StoreError α) : Action (SwapSpace σ) StoreError α :=
  Action.within (·.store) (fun store swap => { swap with store }) id act

/-- Writes a page to the place of a slot. -/
def transferOut (slot : SlotIndex) (page : Bytes) : Action (SwapSpace σ) StoreError Unit := do
  onStore (BackingStore.write ((← get).offset slot) page)
  modify fun swap => { swap with writes := swap.writes + 1 }

/-- Reads a page from the place of a slot. -/
def transferIn (slot : SlotIndex) (len : Nat) : Action (SwapSpace σ) StoreError Bytes := do
  let page ← onStore (BackingStore.read ((← get).offset slot) len)
  modify fun swap => { swap with reads := swap.reads + 1 }
  return page

/-- Writes a page to a slot that has an owner. -/
def writePage (slot : SlotIndex) (page : Bytes) : Action (SwapSpace σ) StoreError Unit := do
  let swap ← get
  Checked.require (page.length = swap.pageSize) .swapTransferSize
  Checked.require (swap.slots.owner slot).isSome (.writeToFreeSlot slot)
  transferOut slot page

/-- Reads a slot that has an owner, for a reader who has room for `len` bytes. -/
def readPage (slot : SlotIndex) (len : Nat) : Action (SwapSpace σ) StoreError Bytes := do
  let swap ← get
  Checked.require (len = swap.pageSize) .swapTransferSize
  Checked.require (swap.slots.owner slot).isSome (.readFromFreeSlot slot)
  transferIn slot len

/-- Writes a page to a slot allocated to `owner`.  When that fails the slot is free
    again. -/
def swapOut (owner : SlotOwner) (page : Bytes) : Action (SwapSpace σ) StoreError SlotIndex := do
  let swap ← get
  Checked.require (page.length = swap.pageSize) .swapTransferSize
  let (slot, swap) := swap.allocate owner
  set swap
  match ← Action.observe (transferOut slot page) with
  | .ok () => return slot
  | .error e =>
    set (← (← get).free slot)
    throw e

/-- Reads a slot and frees it.  When the read fails the slot keeps its page. -/
def swapIn (slot : SlotIndex) (len : Nat) : Action (SwapSpace σ) StoreError Bytes := do
  let swap ← get
  Checked.require (len = swap.pageSize) .swapTransferSize
  Checked.require (swap.slots.owner slot).isSome (.swapInFreeSlot slot)
  let page ← transferIn slot len
  set (← (← get).free slot)
  return page

end Transfers

end SwapSpace

end DemandPaging
