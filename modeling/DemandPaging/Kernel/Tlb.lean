/-
  The kernel and the TLB.

  The `used` and `dirty` bits of a page are spread over its page table entry and
  its copy in the TLB.  Whenever a copy leaves the TLB (`install`, `flush`), and
  before a victim is sought (`harvest`), its bits are written back.
-/
import DemandPaging.Kernel.Basic

namespace DemandPaging.Kernel

variable {σ : Type}

/-- Puts a mapping for process `pid` into the TLB.  What the chosen slot held
    before is written back. -/
def install (pid : Pid) (mapping : Mapping) : KernelM σ Unit := do
  Checked.require mapping.valid .invalidMapping
  let k ← get
  let (slot, choices) := k.tlb.chooseSlot pid mapping.vpn k.choices
  let (replaced, tlb) ← k.tlb.replace slot pid mapping
  set { k with tlb, choices }
  match replaced with
  | none => pure ()
  | some (_, old) => onResidency (·.reconcile old)

/-- Writes back and invalidates the whole TLB. -/
def flush : KernelM σ Unit := do
  let k ← get
  let (taken, tlb) := k.tlb.drain
  set { k with tlb }
  onResidency (·.reconcileAll (taken.map (·.2)))

/-- Writes back the bits in the TLB, and turns off the `used` bits there. -/
def harvest : KernelM σ Unit := do
  let k ← get
  let (copies, tlb) := k.tlb.harvest
  set { k with tlb }
  onResidency (·.reconcileAll copies)

/-- Writes back and invalidates what the TLB holds for `frame`. -/
def shootDown (frame : Frame) : KernelM σ Unit := do
  let k ← get
  let (taken, tlb) := k.tlb.takeFrame frame
  set { k with tlb }
  onResidency (·.reconcileAll (taken.map (·.2)))

/-- The physical address of `vaddr` for process `pid`, if the TLB has it.  On a hit
    the hardware marks the mapping used, and dirty for a write. -/
def translate (pid : Pid) (vaddr : Nat) (write : Bool) : KernelM σ (Option Nat) := do
  let k ← get
  let size ← divisor k.pageSize
  let vpn := pageOf size vaddr
  match k.tlb.lookup pid vpn with
  | none => return none
  | some slot =>
    let mapping ← k.tlb.read slot
    if write && mapping.readOnly then
      throw (.readOnly vpn)
    let tlb ← k.tlb.write slot { mapping with used := true, dirty := mapping.dirty || write }
    set { k with tlb }
    return some (mapping.ppn * k.pageSize + offsetIn size vaddr)

end DemandPaging.Kernel
