/-
  Swap files on the file system of the host.

  A swap file has no header: byte `n` of the store is byte `n` of the file, and
  the file grows as it is written.  It is scratch space: making it empties a file
  that has the name already, and giving up a handle removes the file by its name.
  Handles still open on a removed or emptied file go on sharing its bytes.

  * `HostFiles` is the directory the files live in;
  * `SwapFile` is a handle, with `create`, `read`, `write` and `drop`;
  * `FileStore` is the store made of one handle.
-/
import DemandPaging.Store

namespace DemandPaging

/-! ## The directory -/

/-- The contents of the files, by number, and the names that they have. -/
structure HostFiles where
  names : List (String × Nat) := []
  contents : List Block := []
deriving Repr

namespace HostFiles

/-- The longest name of a file, in bytes. -/
def maxNameSize : Nat := 255

/-- The longest path, in bytes. -/
def maxPathSize : Nat := 4095

/-- The number of the file called `name`. -/
def find? (files : HostFiles) (name : String) : Option Nat := files.names.lookup name

/-- There is a file called `name`. -/
def contains (files : HostFiles) (name : String) : Bool := (files.find? name).isSome

/-- Why no file can be made under `path`.  There are no directories, so a path
    with a slash leads nowhere.  If only slashes follow its first part, it asks
    for a directory, however long the name; otherwise the first part, which is
    then looked up, has too long a name, is a file, or is missing. -/
def pathError? (files : HostFiles) (path : String) : Option IoError :=
  let first := String.ofList (path.toList.takeWhile (· ≠ '/'))
  let rest := path.toList.dropWhile (· ≠ '/')
  if path.contains '\x00' then some .invalidInput
  else if maxPathSize < path.utf8ByteSize then some .invalidFilename
  else if !rest.isEmpty && rest.all (· = '/') then some .isADirectory
  else if maxNameSize < first.utf8ByteSize then some .invalidFilename
  else if rest.isEmpty then none
  else if files.contains first then some .notADirectory
  else some .notFound

/-- Makes an empty file called `name`, or empties the one there is. -/
def create (files : HostFiles) (name : String) : Except IoError (Nat × HostFiles) :=
  match files.pathError? name with
  | some error => .error error
  | none =>
    match files.find? name with
    | some node => .ok (node, { files with contents := files.contents.set node .empty })
    | none =>
      .ok (files.contents.length,
        ⟨(name, files.contents.length) :: files.names, files.contents ++ [.empty]⟩)

/-- Takes the name `name` from its file. -/
def remove (files : HostFiles) (name : String) : HostFiles :=
  { files with names := files.names.filter (·.1 ≠ name) }

/-- The bytes of file number `node`. -/
def content (files : HostFiles) (node : Nat) : Block := files.contents[node]?.getD .empty

/-- Replaces the bytes of file number `node`. -/
def setContent (files : HostFiles) (node : Nat) (block : Block) : HostFiles :=
  { files with contents := files.contents.set node block }

end HostFiles

/-! ## Handles -/

/-- A handle to a swap file: the name it was made with, the number of its file,
    and the size transfers have to stay within, if there is one. -/
structure SwapFile where
  fileName : String
  node : Nat
  capacity : Option Nat := none
deriving DecidableEq, Repr

namespace SwapFile

/-- The name of the file for a swap area called `name`: hyphens become
    underscores. -/
def makeName (name : String) : String :=
  "SWAP_FILE_" ++ String.ofList (name.toList.map fun c => if c = '-' then '_' else c)

/-- Makes a swap file. -/
def create (name : String) (capacity : Option Nat) : Action HostFiles IoError SwapFile := do
  match (← get).create (makeName name) with
  | .error e => throw e
  | .ok (node, files) =>
    set files
    return ⟨makeName name, node, capacity⟩

/-- Gives up a handle, and removes the file. -/
def drop (file : SwapFile) (files : HostFiles) : HostFiles := files.remove file.fileName

/-- The size of the file. -/
def length (file : SwapFile) (files : HostFiles) : Nat := (files.content file.node).size

/-- Refuses a range that ends past the capacity.  The end of the range is a
    64-bit sum. -/
def checkRange (file : SwapFile) (offset len : Nat) : Attempt StoreError Unit := do
  match file.capacity with
  | none => pure ()
  | some capacity =>
    let stop ← addBelow limit64 offset len
    if capacity < stop then throw .overCapacity

/-- Refuses a range that the host cannot address.  Offsets in a file are below
    `limit63`, and so is the end of a transfer, which is the offset itself when
    nothing is transferred. -/
def checkAddressable (offset len : Nat) : Attempt StoreError Unit :=
  if limit63 ≤ offset + len then throw (.io .invalidInput) else pure ()

/-- Reads a range.  Unless it is empty it has to end within the file. -/
def read (file : SwapFile) (offset len : Nat) : Action HostFiles StoreError Bytes := do
  Action.ofAttempt id (file.checkRange offset len)
  Action.ofAttempt id (checkAddressable offset len)
  let block := (← get).content file.node
  if 0 < len ∧ block.size < offset + len then
    throw (.io .unexpectedEof)
  return block.slice offset len

/-- Writes a range.  The file grows up to the end of the range, unless that is
    empty; a hole reads as zeroes. -/
def write (file : SwapFile) (offset : Nat) (src : Bytes) : Action HostFiles StoreError Unit := do
  Action.ofAttempt id (file.checkRange offset src.length)
  Action.ofAttempt id (checkAddressable offset src.length)
  unless src.isEmpty do
    modify fun files =>
      files.setContent file.node ((files.content file.node).put offset src)

end SwapFile

/-! ## The store -/

/-- The store that is one swap file. -/
structure FileStore where
  files : HostFiles
  file : SwapFile
deriving Repr

namespace FileStore

/-- Makes a swap file in an empty directory. -/
def create (name : String) (capacity : Option Nat) : Attempt IoError FileStore := do
  let (result, files) ← ((SwapFile.create name capacity).run.run {} :
    Checked (Except IoError SwapFile × HostFiles))
  match result with
  | .ok file => return ⟨files, file⟩
  | .error e => throw e

/-- An action on the directory. -/
def onFiles {α : Type} (act : SwapFile → Action HostFiles StoreError α) :
    Action FileStore StoreError α := do
  let store ← get
  Action.within (·.files) (fun files store => { store with files }) id (act store.file)

instance : BackingStore FileStore where
  read offset len := onFiles fun file => file.read offset len
  write offset src := onFiles fun file => file.write offset src

end FileStore

end DemandPaging
