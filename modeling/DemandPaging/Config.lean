/-
  The sizes of the machine and of the address spaces on it.
-/
import DemandPaging.Outcome

namespace DemandPaging

/-- The number of frames, of TLB slots, and of the zero-filled stack pages that
    follow an executable's image, and the name of the swap area. -/
structure Config where
  physPages : Nat := 32
  tlbSize : Nat := 4
  stackPages : Nat := 8
  swapFile : String := "swap"
deriving DecidableEq, Repr

end DemandPaging
