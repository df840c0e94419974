/-
  The TLB: a fixed number of slots, each holding a mapping and the process that
  installed it.

  The hardware only reads a slot and sets its `used` and `dirty` bits.  Which slot
  a new mapping goes to is the kernel's choice: the one that already holds the
  page, else an invalid one, else one picked at will.  The picks are an input of
  the machine, a list of numbers (`Choices`).
-/
import DemandPaging.Mapping

namespace DemandPaging

/-! ## Replacement choices -/

/-- The numbers by which a slot is picked, and how many picks were made. -/
structure Choices where
  pending : List Nat := []
  used : Nat := 0
deriving DecidableEq, Repr

/-- Picks one of `size` slots: the next number modulo `size`, slot 0 when no
    number is left. -/
def Choices.pick (choices : Choices) (size : Nat) : Nat × Choices :=
  match choices.pending with
  | [] => (0, { choices with used := choices.used + 1 })
  | k :: rest => (k % size, ⟨rest, choices.used + 1⟩)

/-! ## Slots -/

/-- A slot: a mapping, and the process it is for. -/
structure TlbSlot where
  mapping : Mapping := {}
  owner : Option Pid := none
deriving DecidableEq, Repr, Inhabited

namespace TlbSlot

/-- The slot has page `vpn` of process `pid`. -/
def covers (slot : TlbSlot) (pid : Pid) (vpn : Vpn) : Bool :=
  slot.mapping.valid && slot.mapping.vpn == vpn && slot.owner == some pid

/-- What a valid slot holds, and for whom. -/
def held (slot : TlbSlot) : Option (Pid × Mapping) :=
  if slot.mapping.valid then slot.owner.map (·, slot.mapping) else none

/-- The slot made invalid and given up by its process. -/
def emptied (slot : TlbSlot) : TlbSlot := ⟨{ slot.mapping with valid := false }, none⟩

/-- The slot with its `used` bit off. -/
def unused (slot : TlbSlot) : TlbSlot :=
  { slot with mapping := { slot.mapping with used := false } }

end TlbSlot

/-! ## The buffer -/

/-- The slots of the buffer. -/
structure Tlb where
  slots : List TlbSlot
deriving DecidableEq, Repr

namespace Tlb

/-- A buffer of invalid slots.  It has at least one, and not too many to set
    their mappings aside in one table. -/
def create (size : Nat) : Checked Tlb := do
  Checked.require (0 < size) .noTlbSlots
  Checked.reserve size Mapping.recordSize
  return ⟨List.replicate size {}⟩

/-- The number of slots. -/
def size (tlb : Tlb) : Nat := tlb.slots.length

/-- The mappings in the slots, valid or not. -/
def mappings (tlb : Tlb) : List Mapping := tlb.slots.map (·.mapping)

/-- The mapping in slot `i`. -/
def read (tlb : Tlb) (i : Nat) : Checked Mapping :=
  match tlb.slots[i]? with
  | some slot => .ok slot.mapping
  | none => Violation.index.stop

/-- Replaces the mapping in slot `i`; the slot stays with its process. -/
def write (tlb : Tlb) (i : Nat) (mapping : Mapping) : Checked Tlb :=
  match tlb.slots[i]? with
  | some slot => .ok ⟨tlb.slots.set i { slot with mapping }⟩
  | none => Violation.index.stop

/-- The slot that has page `vpn` of process `pid`. -/
def lookup (tlb : Tlb) (pid : Pid) (vpn : Vpn) : Option Nat :=
  tlb.slots.findIdx? (·.covers pid vpn)

/-- The slot for a new mapping of page `vpn` of process `pid`. -/
def chooseSlot (tlb : Tlb) (pid : Pid) (vpn : Vpn) (choices : Choices) : Nat × Choices :=
  match tlb.lookup pid vpn with
  | some i => (i, choices)
  | none =>
    match tlb.slots.findIdx? (fun slot => !slot.mapping.valid) with
    | some i => (i, choices)
    | none => choices.pick tlb.size

/-- Puts a mapping for process `pid` into slot `i`, and returns what the slot
    held before. -/
def replace (tlb : Tlb) (i : Nat) (pid : Pid) (mapping : Mapping) :
    Checked (Option (Pid × Mapping) × Tlb) :=
  match tlb.slots[i]? with
  | some slot => .ok (slot.held, ⟨tlb.slots.set i ⟨mapping, some pid⟩⟩)
  | none => Violation.index.stop

/-- Empties the valid slots with property `p`, and returns what they held. -/
def takeWhere (tlb : Tlb) (p : TlbSlot → Bool) : List (Pid × Mapping) × Tlb :=
  let goes := fun slot : TlbSlot => slot.mapping.valid && p slot
  (tlb.slots.filterMap fun slot => if goes slot then slot.held else none,
    ⟨tlb.slots.map fun slot => if goes slot then slot.emptied else slot⟩)

/-- Empties the whole buffer. -/
def drain (tlb : Tlb) : List (Pid × Mapping) × Tlb :=
  tlb.takeWhere fun _ => true

/-- Empties the slots that lead to `frame`. -/
def takeFrame (tlb : Tlb) (frame : Frame) : List (Pid × Mapping) × Tlb :=
  tlb.takeWhere (·.mapping.ppn == frame)

/-- Empties the slots of process `pid`. -/
def takeOwnedBy (tlb : Tlb) (pid : Pid) : List (Pid × Mapping) × Tlb :=
  tlb.takeWhere (·.owner == some pid)

/-- Copies the valid mappings out and turns off the `used` bits left behind,
    so that the next harvest sees new references only. -/
def harvest (tlb : Tlb) : List Mapping × Tlb :=
  (tlb.mappings.filter (·.valid),
    ⟨tlb.slots.map fun slot => if slot.mapping.valid then slot.unused else slot⟩)

end Tlb

end DemandPaging
