/-
  Errors that a caller is meant to handle, each with its wording.

  A `MemoryError` comes from main memory, a `StoreError` from the storage under
  the swap area, a `SectionError` from an executable image; a `PagingError` is
  what a process gets to see of them, and of faults of its own.
-/
import DemandPaging.Outcome

namespace DemandPaging

/-- An access that main memory refuses. -/
inductive MemoryError where
  /-- The access ends past the last byte. -/
  | overCapacity
deriving DecidableEq, Repr

/-- The kinds of failure of the host that a store can meet. -/
inductive IoError where
  | unexpectedEof
  | invalidInput
  | notFound
  | isADirectory
  | notADirectory
  | invalidFilename
  | other
deriving DecidableEq, Repr

/-- The name of a failure of the host. -/
def IoError.name : IoError → String
  | unexpectedEof => "UnexpectedEof"
  | invalidInput => "InvalidInput"
  | notFound => "NotFound"
  | isADirectory => "IsADirectory"
  | notADirectory => "NotADirectory"
  | invalidFilename => "InvalidFilename"
  | other => "Other"

/-- A transfer that a store refuses. -/
inductive StoreError where
  /-- The transfer ends past the configured size of the store. -/
  | overCapacity
  | io (error : IoError)
deriving DecidableEq, Repr

/-- The short name of a refused transfer. -/
def StoreError.describe : StoreError → String
  | overCapacity => "OverCapacity"
  | io error => s!"Io({error.name})"

/-- A page that a section of an executable does not deliver. -/
inductive SectionError where
  | pageOutOfRange (name : String) (index : Nat)
  | unreadable (name : String)
  | pageSizeMismatch (name : String) (pageSize expected : Nat)
deriving DecidableEq, Repr

/-- The wording of a section's error. -/
def SectionError.message : SectionError → String
  | pageOutOfRange name index => s!"section {name} has no page {index}"
  | unreadable name => s!"section {name} could not be read"
  | pageSizeMismatch name pageSize expected =>
    s!"section {name} has {pageSize}-byte pages, expected {expected}"

/-- A fault that a process cannot recover from. -/
inductive PagingError where
  | addressOutOfRange (vpn : Vpn)
  | unalignedAccess (vaddr : Nat)
  | readOnly (vpn : Vpn)
  /-- Every frame is pinned. -/
  | outOfMemory
  | swap (error : StoreError)
  | memory (error : MemoryError)
  | image (error : SectionError)
  /-- An image page lies in no section. -/
  | sectionMissing (vpn : Vpn)
  /-- A section does not start where the sections before it end. -/
  | fragmentedExecutable (name : String) (firstVpn expected : Vpn)
  | processExited (pid : Pid)
deriving DecidableEq, Repr

/-- A number in hexadecimal, in lower case and without leading zeroes. -/
def hexadecimal (n : Nat) : String := String.ofList (Nat.toDigits 16 n)

/-- The wording of a fault. -/
def PagingError.message : PagingError → String
  | addressOutOfRange vpn => s!"virtual page {vpn} is outside the address space"
  | unalignedAccess vaddr => s!"unaligned access at 0x{hexadecimal vaddr}"
  | readOnly vpn => s!"write to read-only page {vpn}"
  | outOfMemory => "out of physical memory: every frame is pinned"
  | swap error => s!"swap I/O failed: Disk({error.describe})"
  | memory .overCapacity => "physical memory access failed: OverCapacity"
  | image error => error.message
  | sectionMissing vpn => s!"no section covers image page {vpn}"
  | fragmentedExecutable name firstVpn expected =>
    s!"section {name} starts at page {firstVpn}, expected {expected}"
  | processExited pid => s!"process {pid} has exited"

end DemandPaging
