/-
  How an operation of the pager can end.

  An operation ends in one of three ways: with a value, with an error that the
  caller is meant to handle (the state it leaves behind is kept), or with a
  `Violation`, a broken rule of use after which nothing is defined and the
  machine stops.

  * `Violation` and its wording;
  * `Checked`: a value or a violation; `Attempt`: also an error; `Action`: also
    a state, which survives an error but not a violation;
  * sums and products bounded by 32 and 64 bits, divisors that are not 0, and
    tables bounded by what an address can reach (`Checked.reserve`).
-/
namespace DemandPaging

/-- A process number. -/
abbrev Pid := Nat

/-- A physical frame number. -/
abbrev Frame := Nat

/-- A virtual page number. -/
abbrev Vpn := Nat

/-- The number of a page-sized slot of the swap area. -/
abbrev SlotIndex := Nat

/-- The number of a section among those known to a kernel. -/
abbrev SectionId := Nat

/-! ## Violations -/

/-- A rule of use that was broken.  The machine stops. -/
inductive Violation where
  /-- A sum or product left its word. -/
  | overflow
  | divisionByZero
  /-- A table was asked for that no address space has room for. -/
  | tooLarge
  /-- A table was used at a position it does not have. -/
  | index
  | pageSizeNotPowerOfTwo (bytes : Nat)
  | noFrames
  | noTlbSlots
  | framePinned (frame : Frame)
  | frameFreedTwice (frame : Frame)
  | frameNotPinned (frame : Frame)
  | slotNotAllocated (slot : SlotIndex)
  | writeToFreeSlot (slot : SlotIndex)
  | readFromFreeSlot (slot : SlotIndex)
  | swapInFreeSlot (slot : SlotIndex)
  | swapTransferSize
  | frameBufferSize
  | zeroSizedPages (name : String)
  | alreadyResident (vpn : Vpn) (frame : Frame)
  /-- The page recorded for a victim frame does not live in that frame. -/
  | victimNotResident
  /-- An invalid mapping was to be put into the TLB. -/
  | invalidMapping
  /-- A page still missed the TLB after its last miss had been served. -/
  | missNotServed
deriving DecidableEq, Repr

/-- The wording of a violation. -/
def Violation.message : Violation → String
  | overflow => "arithmetic overflow"
  | divisionByZero => "attempt to divide by zero"
  | tooLarge => "capacity overflow"
  | index => "index out of range"
  | pageSizeNotPowerOfTwo bytes => s!"Page size {bytes} is not a power of 2"
  | noFrames => "Machine needs at least one frame"
  | noTlbSlots => "TLB needs at least one slot"
  | framePinned frame => s!"Frame {frame} is still pinned"
  | frameFreedTwice frame => s!"Frame {frame} freed twice"
  | frameNotPinned frame => s!"Frame {frame} is not pinned"
  | slotNotAllocated slot => s!"Swap slot {slot} is not allocated"
  | writeToFreeSlot slot => s!"Writing to free swap slot {slot}"
  | readFromFreeSlot slot => s!"Reading from free swap slot {slot}"
  | swapInFreeSlot slot => s!"Swapping in free slot {slot}"
  | swapTransferSize => "Swap transfers are exactly one page"
  | frameBufferSize => "Frame buffer must be exactly one page"
  | zeroSizedPages name => s!"Section {name} has zero-sized pages"
  | alreadyResident vpn frame => s!"vpn {vpn} is already resident in frame {frame}"
  | victimNotResident => "assertion failed"
  | invalidMapping => "assertion failed"
  | missNotServed => "assertion failed"

/-! ## Outcomes -/

/-- A value, or a violation. -/
abbrev Checked (α : Type) := Except Violation α

/-- A value, an error `ε`, or a violation. -/
abbrev Attempt (ε α : Type) := ExceptT ε (Except Violation) α

/-- A change of the state `σ` that ends with a value or with an error `ε`, the
    new state being kept in both cases, or with a violation, which keeps none. -/
abbrev Action (σ ε α : Type) := ExceptT ε (StateT σ (Except Violation)) α

/-- Stops with a violation. -/
def Violation.stop {α : Type} (v : Violation) : Checked α := .error v

/-- Stops with `v` unless `rule` holds. -/
def Checked.require (rule : Bool) (v : Violation) : Checked Unit :=
  if rule then .ok () else v.stop

namespace Action

variable {σ τ ε ε' α : Type}

/-- A value or an error that does not touch the state. -/
def ofExcept (wrap : ε → ε') : Except ε α → Action σ ε' α
  | .ok a => pure a
  | .error e => throw (wrap e)

/-- An attempt that does not touch the state. -/
def ofAttempt (wrap : ε → ε') (attempt : Attempt ε α) : Action σ ε' α := do
  ofExcept wrap (← (ExceptT.run attempt : Checked (Except ε α)))

/-- Runs an action on a part of the state. -/
def within (part : τ → σ) (put : σ → τ → τ) (wrap : ε → ε') (act : Action σ ε α) :
    Action τ ε' α := do
  let whole ← get
  let (result, new) ← (act.run.run (part whole) : Checked (Except ε α × σ))
  set (put new whole)
  ofExcept wrap result

/-- Runs an action and hands its error back as a value. -/
def observe (act : Action σ ε α) : Action σ ε (Except ε α) :=
  ExceptT.lift act.run

end Action

/-! ## Bounded arithmetic -/

/-- One more than the largest signed 32-bit number. -/
def limit31 : Nat := 0x80000000

/-- One more than the largest 32-bit number. -/
def limit32 : Nat := 0x100000000

/-- One more than the largest signed 64-bit number.  The size of a table in
    bytes and the end of a transfer to a file stay below it. -/
def limit63 : Nat := 0x8000000000000000

/-- One more than the largest 64-bit number. -/
def limit64 : Nat := 0x10000000000000000

/-- A sum that has to stay below `limit`. -/
def addBelow (limit a b : Nat) : Checked Nat :=
  if a + b < limit then .ok (a + b) else Violation.overflow.stop

/-- A product that has to stay below `limit`. -/
def mulBelow (limit a b : Nat) : Checked Nat :=
  if a * b < limit then .ok (a * b) else Violation.overflow.stop

/-- Stops unless a table of `count` records of `size` bytes each stays below
    `limit63`. -/
def Checked.reserve (count size : Nat) : Checked Unit :=
  Checked.require (count * size < limit63) .tooLarge

theorem addBelow_eq_ok_iff {limit a b n : Nat} :
    addBelow limit a b = .ok n ↔ n = a + b ∧ n < limit := by
  unfold addBelow
  split <;> simp [Violation.stop] <;> omega

theorem mulBelow_eq_ok_iff {limit a b n : Nat} :
    mulBelow limit a b = .ok n ↔ n = a * b ∧ n < limit := by
  unfold mulBelow
  split <;> simp [Violation.stop] <;> omega

end DemandPaging
