/-
  Page tables.  A process has one entry for each of its virtual pages, which
  says where the content of the page lives.
-/
import DemandPaging.Error
import DemandPaging.Mapping
import DemandPaging.Row

namespace DemandPaging

/-- Where the content of a page lives. -/
inductive PageState where
  /-- Never loaded, or dropped unchanged: the content comes from the image, or is
      zero. -/
  | absent
  | resident (frame : Frame)
  | swapped (slot : SlotIndex)
deriving DecidableEq, Repr

/-- The content is in a swap slot. -/
def PageState.isSwapped : PageState → Bool
  | .swapped _ => true
  | _ => false

/-- The entry of a page.  `swapBacked` says that the content has come back from
    swap, so that the image no longer has it. -/
structure PageEntry where
  vpn : Vpn
  state : PageState := .absent
  readOnly : Bool := false
  used : Bool := false
  dirty : Bool := false
  swapBacked : Bool := false
deriving DecidableEq, Repr

namespace PageEntry

/-- The frame of a resident page. -/
def frame (entry : PageEntry) : Option Frame :=
  match entry.state with
  | .resident frame => some frame
  | _ => none

/-- The page is in a frame. -/
def isValid (entry : PageEntry) : Bool := entry.frame.isSome

/-- Eviction has to keep the content in swap. -/
def needsSwap (entry : PageEntry) : Bool := entry.dirty || entry.swapBacked

/-- The hardware's view of the entry, invalid unless the page is resident. -/
def mapping (entry : PageEntry) : Mapping where
  vpn := entry.vpn
  ppn := entry.frame.getD 0
  valid := entry.isValid
  readOnly := entry.readOnly
  used := entry.used
  dirty := entry.dirty

/-- The entry with the reference bits of a hardware copy added. -/
def merge (entry : PageEntry) (hw : Mapping) : PageEntry :=
  { entry with used := entry.used || hw.used, dirty := entry.dirty || hw.dirty }

/-- The entry after an access by the kernel on behalf of the process. -/
def touch (entry : PageEntry) (write : Bool) : PageEntry :=
  { entry with used := true, dirty := entry.dirty || write }

/-- The entry once the content has been brought into `frame`. -/
def loaded (entry : PageEntry) (frame : Frame) : PageEntry :=
  { entry with
    state := .resident frame, used := true, dirty := false
    swapBacked := entry.swapBacked || entry.state.isSwapped }

/-- The entry once the page has lost its frame and its content lives elsewhere. -/
def evicted (entry : PageEntry) (state : PageState) : PageEntry :=
  { entry with state, used := false }

/-- The entry of a page whose content has been given up. -/
def discarded (entry : PageEntry) : PageEntry := { entry with state := .absent }

end PageEntry

/-- The entries of a process, by virtual page. -/
structure PageTable where
  entries : Row PageEntry
deriving DecidableEq, Repr

namespace PageTable

/-- Absent pages with the given read-only flags. -/
def ofFlags (readOnly : List Bool) : PageTable :=
  ⟨Row.ofList (readOnly.mapIdx fun vpn flag => { vpn, readOnly := flag })⟩

/-- A table of `numPages` absent, writable pages. -/
def create (numPages : Nat) : PageTable := ofFlags (List.replicate numPages false)

/-- The entry of page `vpn`. -/
def get (table : PageTable) (vpn : Vpn) : Except PagingError PageEntry :=
  match table.entries.get? vpn with
  | some entry => .ok entry
  | none => .error (.addressOutOfRange vpn)

/-- Replaces the entry of page `vpn`, if there is one. -/
def set (table : PageTable) (vpn : Vpn) (entry : PageEntry) : PageTable :=
  ⟨table.entries.set vpn entry⟩

/-- Sets the read-only flag of page `vpn`. -/
def setReadOnly (table : PageTable) (vpn : Vpn) (readOnly : Bool) :
    Except PagingError PageTable := do
  let entry ← table.get vpn
  return table.set vpn { entry with readOnly }

/-- The entry of page `vpn`, provided the page is in `frame`. -/
def residentIn (table : PageTable) (vpn : Vpn) (frame : Frame) : Option PageEntry :=
  (table.entries.get? vpn).filter (·.state = .resident frame)

/-- Adds the reference bits of a hardware copy to the entry of page `vpn`,
    provided the page is still in `frame`. -/
def merge (table : PageTable) (vpn : Vpn) (frame : Frame) (hw : Mapping) :
    Option (PageEntry × PageTable) :=
  (table.residentIn vpn frame).map fun entry =>
    (entry.merge hw, table.set vpn (entry.merge hw))

/-- Turns off the `used` bit of page `vpn`, provided the page is in `frame`. -/
def clearUsed (table : PageTable) (vpn : Vpn) (frame : Frame) : PageTable :=
  match table.residentIn vpn frame with
  | some entry => table.set vpn { entry with used := false }
  | none => table

/-- Records an access by the kernel to page `vpn`. -/
def touch (table : PageTable) (vpn : Vpn) (write : Bool) :
    Except PagingError (PageEntry × PageTable) := do
  let entry ← table.get vpn
  return (entry.touch write, table.set vpn (entry.touch write))

/-- Gives up the content of every page. -/
def discarded (table : PageTable) : PageTable := ⟨table.entries.map (·.discarded)⟩

end PageTable

end DemandPaging
