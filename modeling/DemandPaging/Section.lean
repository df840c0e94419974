/-
  Executable images.  An image is a list of sections; a section is a run of pages
  of the address space, and delivers the content of each on demand.

  * `Section.page` cuts a section's data into zero-padded pages;
  * `Executable.checkContiguous` accepts the sections that tile the image from
    page 0 on without holes, `Executable.position?` finds the section of a page,
    and `Executable.flagPages` gives each page the flag of its section.
-/
import DemandPaging.Block
import DemandPaging.PageTable

namespace DemandPaging

/-- Where a section's pages come from. -/
inductive SectionContent where
  /-- Bytes in memory. -/
  | data (bytes : Block)
  /-- A reader of `numPages` pages, which fills a buffer of a given length with
      the page of a given index, or fails. -/
  | reader (numPages : Nat) (page : (index len : Nat) → Option (Vector UInt8 len))

/-- A section of an executable image.  `loads` counts the pages loaded from it. -/
structure Section where
  name : String
  firstVpn : Vpn
  readOnly : Bool
  pageSize : Nat
  content : SectionContent
  loads : Nat := 0

namespace Section

/-- A section held in memory.  Its pages are not empty. -/
def ofData (name : String) (firstVpn : Vpn) (readOnly : Bool) (pageSize : Nat) (data : Bytes) :
    Checked Section := do
  Checked.require (0 < pageSize) (.zeroSizedPages name)
  return { name, firstVpn, readOnly, pageSize, content := .data (Block.ofList data) }

/-- A section whose pages are read from elsewhere. -/
def ofReader (name : String) (firstVpn : Vpn) (readOnly : Bool) (pageSize numPages : Nat)
    (page : (index len : Nat) → Option (Vector UInt8 len)) : Section :=
  { name, firstVpn, readOnly, pageSize, content := .reader numPages page }

/-- The number of pages: enough to hold the data, as a 32-bit count. -/
def numPages (s : Section) : Checked Nat :=
  match s.content with
  | .data bytes => do
    let total ← addBelow limit64 bytes.size s.pageSize
    return (total - 1) / s.pageSize % limit32
  | .reader numPages _ => .ok numPages

/-- Page `index` of a block of bytes, padded with zeroes.  The page is set aside
    before its place in the block is worked out. -/
def pageOfData (pageSize : Nat) (bytes : Block) (index : Nat) : Checked Bytes := do
  Checked.reserve pageSize 1
  let start := min (← mulBelow limit64 index pageSize) bytes.size
  let stop := min (← addBelow limit64 start pageSize) bytes.size
  return Bytes.extend (bytes.slice start (stop - start)) pageSize

/-- The content of page `index`, if it can be read. -/
def page (s : Section) (index : Nat) : Checked (Option Bytes) :=
  match s.content with
  | .data bytes => some <$> pageOfData s.pageSize bytes index
  | .reader _ page => .ok ((page index s.pageSize).map (·.toList))

/-- Loads page `index` into a buffer of `len` bytes.  Of a section held in memory
    the page has to exist and the buffer to be one page long. -/
def load (index len : Nat) : Action Section SectionError Bytes := do
  let s ← get
  match s.content with
  | .data bytes =>
    if (← s.numPages) ≤ index then
      throw (.pageOutOfRange s.name index)
    if len ≠ s.pageSize then
      throw (.pageSizeMismatch s.name s.pageSize len)
    let page ← pageOfData s.pageSize bytes index
    set { s with loads := s.loads + 1 }
    return page
  | .reader _ page =>
    match page index len with
    | none => throw (.unreadable s.name)
    | some page =>
      set { s with loads := s.loads + 1 }
      return page.toList

/-- Loads the page at `vpn`. -/
def loadAt (vpn : Vpn) (len : Nat) : Action Section SectionError Bytes := do
  load (vpn - (← get).firstVpn) len

/-- The section has a page `vpn`. -/
def covers (s : Section) (vpn : Vpn) : Checked Bool := do
  if vpn < s.firstVpn then
    return false
  let stop ← addBelow limit32 s.firstVpn (← s.numPages)
  return vpn < stop

/-- Gives page `index` of the section, wherever the section lies, its read-only flag. -/
def flagPage (s : Section) (table : PageTable) (index : Nat) : Attempt PagingError PageTable := do
  let vpn ← addBelow limit32 s.firstVpn index
  MonadExcept.ofExcept (table.setReadOnly vpn s.readOnly)

/-- Gives the pages of the section its read-only flag, one after another. -/
def flagPages (s : Section) (table : PageTable) : Attempt PagingError PageTable := do
  (List.range (← s.numPages)).foldlM s.flagPage table

end Section

/-- The sections of a program, in the order of their addresses. -/
abbrev Executable := List Section

namespace Executable

/-- The number of pages of the sections from a running total on. -/
def countFrom (total : Nat) : Executable → Checked Nat
  | [] => .ok total
  | s :: rest => do countFrom (← addBelow limit32 total (← s.numPages)) rest

/-- The number of pages of all sections. -/
def numPages (exe : Executable) : Checked Nat := countFrom 0 exe

/-- The position of the first section that has page `vpn`. -/
def position? (exe : Executable) (vpn : Vpn) : Checked (Option Nat) :=
  match exe with
  | [] => .ok none
  | s :: rest => do
    if ← s.covers vpn then
      return some 0
    return (← position? rest vpn).map (· + 1)

/-- The first section that has page `vpn`. -/
def sectionFor (exe : Executable) (vpn : Vpn) : Checked (Option Section) := do
  return (← exe.position? vpn).bind (exe[·]?)

/-- Every section is paged in units of `pageSize`. -/
def checkPageSize (exe : Executable) (pageSize : Nat) : Except SectionError Unit :=
  match exe.find? (·.pageSize ≠ pageSize) with
  | none => .ok ()
  | some s => .error (.pageSizeMismatch s.name s.pageSize pageSize)

/-- The sections follow one another without holes from page `expected` on. -/
def contiguousFrom (expected : Vpn) : Executable → Attempt PagingError Unit
  | [] => pure ()
  | s :: rest => do
    if s.firstVpn ≠ expected then
      throw (.fragmentedExecutable s.name s.firstVpn expected)
    contiguousFrom (← addBelow limit32 expected (← s.numPages)) rest

/-- The sections tile the image from page 0 on without holes. -/
def checkContiguous (exe : Executable) : Attempt PagingError Unit := exe.contiguousFrom 0

/-- Gives the pages of each section the section's read-only flag. -/
def flagPages (exe : Executable) (table : PageTable) : Attempt PagingError PageTable :=
  exe.foldlM (fun table s => s.flagPages table) table

end Executable

end DemandPaging
