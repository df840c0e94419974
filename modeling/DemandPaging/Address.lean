/-
  Virtual addresses.  An address is a page number and an offset inside the page;
  addresses are 32 bits wide.
-/
import DemandPaging.Outcome

namespace DemandPaging

/-- The number of addresses a process can name. -/
def addressLimit : Nat := limit32

/-- The size of a page as addresses are divided by it, a number of 32 bits.  Nothing
    is left of a page size of 2^32 bytes or more, a power of two, and no address can
    be divided. -/
def divisor (pageSize : Nat) : Checked Nat :=
  if pageSize % limit32 = 0 then Violation.divisionByZero.stop else .ok (pageSize % limit32)

/-- The page that an address lies in. -/
def pageOf (size vaddr : Nat) : Vpn := vaddr / size

/-- The place of an address inside its page. -/
def offsetIn (size vaddr : Nat) : Nat := vaddr % size

/-- The address at `offset` in page `page`. -/
def addressOf (pageSize : Nat) (page : Vpn) (offset : Nat) : Checked Nat := do
  addBelow limit32 (← mulBelow limit32 page (pageSize % limit32)) offset

theorem divisor_eq {pageSize : Nat} (hpos : 0 < pageSize) (hlt : pageSize < limit32) :
    divisor pageSize = .ok pageSize := by
  rw [divisor, Nat.mod_eq_of_lt hlt, if_neg (Nat.pos_iff_ne_zero.1 hpos)]

/-- No address lies in a page behind that of the last one. -/
theorem pageOf_le {size vaddr : Nat} (h : vaddr < addressLimit) :
    pageOf size vaddr ≤ pageOf size (addressLimit - 1) :=
  Nat.div_le_div_right (Nat.le_sub_one_of_lt h)

/-- The page and the offset of an address make up the address. -/
theorem addressOf_pageOf (pageSize vaddr : Nat) (hsize : pageSize < limit32)
    (h : vaddr < addressLimit) :
    addressOf pageSize (pageOf pageSize vaddr) (offsetIn pageSize vaddr) = .ok vaddr := by
  have hpage : mulBelow limit32 (pageOf pageSize vaddr) pageSize =
      .ok (vaddr / pageSize * pageSize) :=
    mulBelow_eq_ok_iff.2 ⟨rfl, Nat.lt_of_le_of_lt (Nat.div_mul_le_self ..) h⟩
  unfold addressOf
  rw [Nat.mod_eq_of_lt hsize, hpage]
  exact addBelow_eq_ok_iff.2 ⟨(Nat.div_add_mod' ..).symm, h⟩

end DemandPaging
