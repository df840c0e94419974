/-
  One virtual-to-physical mapping as the hardware sees it.
-/
import DemandPaging.Outcome

namespace DemandPaging

/-- A mapping of virtual page `vpn` to frame `ppn`.  The default one is
    invalid.  The hardware sets `used` on every access through the mapping
    and `dirty` on every store. -/
structure Mapping where
  vpn : Vpn := 0
  ppn : Frame := 0
  valid : Bool := false
  readOnly : Bool := false
  used : Bool := false
  dirty : Bool := false
deriving DecidableEq, Repr, Inhabited

/-- The room that a mapping takes in a table, in bytes: two words and four
    flags. -/
def Mapping.recordSize : Nat := 12

end DemandPaging
