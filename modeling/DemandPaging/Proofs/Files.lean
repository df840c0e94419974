/-
  The files of a directory, and a file by itself.

  A call on a handle sees no more of the directory than the bytes of its own file, and changes no
  more of it.  So a `LoneFile`, which is these bytes and a capacity, is a store that is carried
  over to a file of any directory (`LoneFile.carries`).
-/
import DemandPaging.Proofs.Behaviour
import DemandPaging.SwapFile
import Mathlib.Data.List.TakeWhile

namespace DemandPaging

/-! ## The directory -/

namespace HostFiles

variable {files files' : HostFiles} {name name' : String} {node node' : Nat} {block : Block}

theorem content_setContent_self (h : node < files.contents.length) :
    (files.setContent node block).content node = block := by
  simp [content, setContent, h]

theorem content_setContent_ne (h : node ≠ node') :
    (files.setContent node block).content node' = files.content node' := by
  simp [content, setContent, List.getElem?_set_ne h]

@[simp] theorem length_contents_setContent :
    (files.setContent node block).contents.length = files.contents.length := List.length_set

theorem setContent_setContent {block' : Block} :
    (files.setContent node block).setContent node block' = files.setContent node block' := by
  simp [setContent, List.set_set]

/-- Nothing changes where a file is given the bytes that it has. -/
theorem setContent_content : files.setContent node (files.content node) = files := by
  unfold setContent content
  rcases Nat.lt_or_ge node files.contents.length with h | h
  · rw [List.getElem?_eq_getElem h, Option.getD_some, List.set_getElem_self]
  · rw [List.set_eq_of_length_le h]

/-- What a name leads to once a name is taken away. -/
theorem find?_remove : (files.remove name).find? name' =
    if name' = name then none else files.find? name' := by
  unfold find? remove
  induction files.names with
  | nil => simp
  | cons entry rest ih =>
    rw [List.filter_cons]
    by_cases hentry : entry.1 = name
    · rw [if_neg (by simpa using hentry), ih, List.lookup_cons]
      split
      · rfl
      · next hne => rw [beq_eq_false_iff_ne.2 (hentry ▸ hne)]
    · rw [if_pos (by simpa using hentry), List.lookup_cons, List.lookup_cons, ih]
      by_cases hname : name' = entry.1
      · subst hname
        simp [hentry]
      · rw [beq_eq_false_iff_ne.2 hname]

/-- Making a file empties the one that has the name, or adds one at the end. -/
theorem create_cases (h : files.create name = .ok (node, files')) :
    files.find? name = some node ∧ files' = files.setContent node .empty ∨
      files.find? name = none ∧ node = files.contents.length ∧
        files' = ⟨(name, files.contents.length) :: files.names, files.contents ++ [.empty]⟩ := by
  unfold create at h
  split at h
  · cases h
  · split at h
    · next hfind =>
      cases h
      exact .inl ⟨hfind, rfl⟩
    · next hfind =>
      cases h
      exact .inr ⟨hfind, rfl, rfl⟩

/-- A file that has just been made is empty. -/
theorem content_create (h : files.create name = .ok (node, files'))
    (hinside : files.find? name = some node → node < files.contents.length) :
    node < files'.contents.length ∧ files'.content node = .empty := by
  obtain ⟨hfind, rfl⟩ | ⟨-, rfl, rfl⟩ := create_cases h
  · exact ⟨length_contents_setContent.symm ▸ hinside hfind, content_setContent_self (hinside hfind)⟩
  · simp [content]

/-- Whether a path is a name does not depend on the files that there are. -/
theorem pathError?_eq_none (h : files.pathError? name = none) : files'.pathError? name = none := by
  -- the files are asked for only where the path is refused anyway
  unfold pathError? at h ⊢
  grind

/-- A short name without slashes is a path. -/
theorem pathError?_of_plain (hzero : '\x00' ∉ name.toList) (hslash : '/' ∉ name.toList)
    (hsize : name.utf8ByteSize ≤ maxNameSize) : files.pathError? name = none := by
  have hno : ∀ c ∈ name.toList, decide (c ≠ '/') = true := fun c hc =>
    decide_eq_true fun heq => hslash (heq ▸ hc)
  have hpath : ¬ maxPathSize < name.utf8ByteSize :=
    Nat.not_lt_of_le (Nat.le_trans hsize (by decide))
  unfold pathError?
  rw [List.takeWhile_eq_self_iff.2 hno, List.dropWhile_eq_nil_iff.2 hno, String.contains_char_eq,
    String.ofList_toList]
  simp [hzero, hpath, Nat.not_lt_of_le hsize]

/-- A new file comes after the files that there are. -/
theorem create_new (hpath : files.pathError? name = none) (hfind : files.find? name = none) :
    files.create name = .ok (files.contents.length,
      ⟨(name, files.contents.length) :: files.names, files.contents ++ [.empty]⟩) := by
  rw [create, hpath, hfind]

theorem pathError?_of_create (h : files.create name = .ok (node, files')) :
    files.pathError? name = none := by
  unfold create at h
  split at h
  · cases h
  · assumption

end HostFiles

/-! ## Handles -/

namespace SwapFile

variable {name : String} {capacity : Option Nat} {files : HostFiles}

theorem run_create : (create name capacity).run.run files =
    .ok (match files.create (makeName name) with
      | .error e => (.error e, files)
      | .ok (node, files') => (.ok ⟨makeName name, node, capacity⟩, files')) := by
  have hget : (create name capacity).run.run files =
      ((match files.create (makeName name) with
        | .error e => throw e
        | .ok (node, files') => do
          set files'
          return ⟨makeName name, node, capacity⟩ : Action HostFiles IoError SwapFile)).run.run
            files := rfl
  rw [hget]
  rcases files.create (makeName name) with e | ⟨node, files'⟩ <;> rfl

end SwapFile

/-! ## A file by itself -/

/-- The bytes of a file that is used through handles of one capacity. -/
structure LoneFile (capacity : Option Nat) where
  bytes : Block := .empty

namespace LoneFile

variable {capacity : Option Nat} {files : HostFiles} {file : SwapFile}

/-- Reads a range. -/
def read (offset len : Nat) : Action (LoneFile capacity) StoreError Bytes := do
  Action.ofAttempt id (SwapFile.checkRange ⟨"", 0, capacity⟩ offset len)
  Action.ofAttempt id (SwapFile.checkAddressable offset len)
  let block := (← get).bytes
  if 0 < len ∧ block.size < offset + len then
    throw (.io .unexpectedEof)
  return block.slice offset len

/-- Writes a range. -/
def write (offset : Nat) (src : Bytes) : Action (LoneFile capacity) StoreError Unit := do
  Action.ofAttempt id (SwapFile.checkRange ⟨"", 0, capacity⟩ offset src.length)
  Action.ofAttempt id (SwapFile.checkAddressable offset src.length)
  unless src.isEmpty do
    modify fun lone => ⟨lone.bytes.put offset src⟩

instance : BackingStore (LoneFile capacity) := ⟨read, write⟩

/-- The file in a directory, through a handle. -/
def among (files : HostFiles) (file : SwapFile) (lone : LoneFile capacity) : FileStore :=
  ⟨files.setContent file.node lone.bytes, file⟩

theorem among_self :
    among files file (⟨files.content file.node⟩ : LoneFile capacity) = ⟨files, file⟩ := by
  rw [among, HostFiles.setContent_content]

/-- An action on a handle does among others what it does on the file by itself. -/
theorem follows_onFiles {α : Type} {act : Action (LoneFile capacity) StoreError α}
    {act' : SwapFile → Action HostFiles StoreError α} {lone : LoneFile capacity}
    (hact : Tracks (fun lone => files.setContent file.node lone.bytes) id act (act' file) lone) :
    Tracks (among files file) id act (FileStore.onFiles act') lone :=
  follows_get_right (follows_within_right hact rfl fun _ => rfl)

/-- A file does among others what it does by itself, and leaves the others alone. -/
theorem carries (hcap : file.capacity = capacity) (h : file.node < files.contents.length) :
    Carries (among files file : LoneFile capacity → FileStore) where
  read lone offset len := by
    subst hcap
    refine follows_onFiles (follows_ofAttempt_bind fun _ _ => follows_ofAttempt_bind fun _ _ => ?_)
    refine follows_get ?_
    rw [HostFiles.content_setContent_self h]
    exact follows_ite (fun _ => rfl) fun _ => follows_pure rfl
  write lone offset src := by
    subst hcap
    refine follows_onFiles (follows_ofAttempt_bind fun _ _ => follows_ofAttempt_bind fun _ _ => ?_)
    cases src.isEmpty with
    | true => exact follows_pure rfl
    | false =>
      refine follows_change ?_
      rw [HostFiles.content_setContent_self h, HostFiles.setContent_setContent]

end LoneFile

end DemandPaging
