/-
  Swap files in one directory.

  A name leads to a file if the directory has it, and as long as a handle is left that was made
  with it.  No two names lead to the same file (`Tidy`), and a call leaves alone the files that
  other names lead to (`Change.unaffected`).

  * `Change`: all that a call can do to the directory;
  * `Reached.tidy`: so it stays, whatever calls are made;
  * `SwapFile.makeName_eq_iff`: which names of swap areas are names of the same file.
-/
import DemandPaging.Proofs.Files

namespace DemandPaging

namespace SwapFile

variable {file : SwapFile} {files files' : HostFiles} {offset len : Nat} {src : Bytes}

/-! ## Names -/

/-- The name of a swap area, as the name of its file has it. -/
def underscored (name : String) : List Char := name.toList.map fun c => if c = '-' then '_' else c

theorem makeName_eq_iff {name name' : String} :
    makeName name = makeName name' ↔ underscored name = underscored name' := by
  unfold makeName
  rw [String.append_right_inj, String.ofList_inj]
  rfl

/-! ## Calls on one file -/

/-- The end of a transfer is within the capacity, if there is one. -/
def Fits (file : SwapFile) (stop : Nat) : Prop := ∀ n ∈ file.capacity, stop ≤ n

/-- A range is refused if it ends past the capacity, unless its end is no 64-bit number.  Without
    a capacity the end is not looked at. -/
theorem ends_checkRange {V : Violation → Prop} {Q : Except StoreError Unit → Prop}
    (hfits : file.Fits (offset + len) → Q (.ok ()))
    (hpast : ¬ file.Fits (offset + len) → Q (.error .overCapacity))
    (hover : file.capacity.isSome = true → limit64 ≤ offset + len → V .overflow) :
    Checked.Ends V (file.checkRange offset len).run Q := by
  unfold Fits at hfits hpast
  unfold checkRange
  cases hcap : file.capacity with
  | none => exact hfits (by rw [hcap]; nofun)
  | some capacity =>
    rw [hcap] at hfits hpast
    simp only [attempt_ends_bind, attempt_ends_lift, Checked.ends_addBelow]
    refine ⟨fun _ => ?_, fun hlt => hover (by rw [hcap]; rfl) (Nat.not_lt.1 hlt)⟩
    split
    · next hlt => exact hpast fun h => absurd (h capacity rfl) (Nat.not_le.2 hlt)
    · next hle => exact hfits fun n hn => by cases hn; exact Nat.not_lt.1 hle

theorem ends_checkAddressable {V : Violation → Prop} {Q : Except StoreError Unit → Prop}
    (hin : Q (.ok ())) (hfar : limit63 ≤ offset + len → Q (.error (.io .invalidInput))) :
    Checked.Ends V (checkAddressable offset len).run Q := by
  unfold checkAddressable
  split
  · next hlimit => exact hfar hlimit
  · exact hin

/-- What comes of a transfer after the two checks of its range. -/
theorem ends_transfer {σ α : Type} {s : σ} {V : Violation → Prop} {use : Action σ StoreError α}
    {Q : Except StoreError α → σ → Prop} (huse : file.Fits (offset + len) → Ends V use.run s Q)
    (hpast : ¬ file.Fits (offset + len) → Q (.error .overCapacity) s)
    (hfar : limit63 ≤ offset + len → Q (.error (.io .invalidInput)) s)
    (hover : file.capacity.isSome = true → limit64 ≤ offset + len → V .overflow) :
    Ends V (Action.ofAttempt id (file.checkRange offset len) >>= fun _ =>
      Action.ofAttempt id (checkAddressable offset len) >>= fun _ => use).run s Q := by
  simp only [ends_bind, ends_ofAttempt]
  exact ends_checkRange (fun hfits => ends_checkAddressable (huse hfits) hfar) hpast hover

/-- Below `limit63` only the capacity counts. -/
theorem ends_transfer_below {σ α : Type} {s : σ} {V : Violation → Prop}
    {use : Action σ StoreError α} {Q : Except StoreError α → σ → Prop}
    (hlt : offset + len < limit63) (huse : file.Fits (offset + len) → Ends V use.run s Q)
    (hpast : ¬ file.Fits (offset + len) → Q (.error .overCapacity) s) :
    Ends V (Action.ofAttempt id (file.checkRange offset len) >>= fun _ =>
      Action.ofAttempt id (checkAddressable offset len) >>= fun _ => use).run s Q := by
  refine ends_transfer huse hpast (fun hfar => absurd hlt (Nat.not_lt.2 hfar)) fun _ hover => ?_
  unfold limit63 at hlt
  unfold limit64 at hover
  omega

/-- A read changes nothing. -/
theorem ends_read : Ends (fun v => v = .overflow) (file.read offset len).run files fun _ files' =>
    files' = files := by
  refine ends_transfer (fun _ => ?_) (fun _ => rfl) (fun _ => rfl) fun _ _ => rfl
  simp only [ends_bind, ends_get, ends_ite, ends_throw, ends_pure]
  exact ⟨fun _ => trivial, fun _ => trivial⟩

/-- The directory after a write. -/
def written (file : SwapFile) (offset : Nat) (src : Bytes) (files : HostFiles) : HostFiles :=
  if src.isEmpty then files
  else files.setContent file.node ((files.content file.node).put offset src)

theorem ends_put {V : Violation → Prop} : Ends V (do
    unless src.isEmpty do
      modify fun files => files.setContent file.node ((files.content file.node).put offset src) :
        Action HostFiles StoreError Unit).run files fun r files' =>
          r = .ok () ∧ files' = file.written offset src files := by
  unfold written
  cases src.isEmpty with
  | true => exact ⟨rfl, rfl⟩
  | false => exact ⟨rfl, rfl⟩

/-- A write that succeeds gives the file other bytes, and one that fails changes nothing. -/
theorem ends_write : Ends (fun v => v = .overflow) (file.write offset src).run files fun r files' =>
    r = .ok () ∧ files' = file.written offset src files ∨ (∃ e, r = .error e) ∧ files' = files :=
  ends_transfer (fun _ => ends_put.imp fun _ _ h => .inl h) (fun _ => .inr ⟨⟨_, rfl⟩, rfl⟩)
    (fun _ => .inr ⟨⟨_, rfl⟩, rfl⟩) fun _ _ => rfl

/-- A read sees no more of the directory than the bytes of the file. -/
theorem follows_read : Tracks (fun files => ⟨files.content file.node⟩) id (file.read offset len)
    (LoneFile.read offset len : Action (LoneFile file.capacity) StoreError Bytes) files := by
  refine follows_ofAttempt_bind fun _ _ => follows_ofAttempt_bind fun _ _ => follows_get ?_
  exact follows_ite (fun _ => follows_throw) fun _ => follows_pure rfl

theorem run_read_congr (h : files'.content file.node = files.content file.node) :
    Prod.fst <$> (file.read offset len).run.run files' =
      Prod.fst <$> (file.read offset len).run.run files := by
  have hread : ∀ files, Tracks (fun files => ⟨files.content file.node⟩) id (file.read offset len)
      (LoneFile.read offset len : Action (LoneFile file.capacity) StoreError Bytes) files :=
    fun _ => follows_read
  have hagree := (hread files').agree (hread files) (congrArg LoneFile.mk h)
  have hfst := congrArg (fun c : Checked _ => Prod.fst <$> c) hagree
  have hid : (fun r : Except StoreError Bytes => r.map id) = id := by
    funext r
    cases r <;> rfl
  simpa only [Functor.map_map, hid, id] using hfst

end SwapFile

/-- The files that names lead to are there, and different names lead to different files. -/
structure HostFiles.Apart (files : HostFiles) : Prop where
  inside : ∀ {name node}, files.find? name = some node → node < files.contents.length
  apart : ∀ {name name' node}, files.find? name = some node → files.find? name' = some node →
    name = name'

/-! ## Handles -/

/-- A handle, and the name of the swap area that it was made for. -/
structure Handle where
  name : String
  file : SwapFile

/-- A directory, and the handles that were made, in order; `none` stands for one that was given
    up. -/
structure Directory where
  files : HostFiles
  handles : List (Option Handle)

/-- A call on swap files. -/
inductive FileCall where
  | create (name : String) (capacity : Option Nat)
  | read (h offset len : Nat)
  | write (h offset : Nat) (src : Bytes)
  | length (h : Nat)
  | drop (h : Nat)

/-- What a call answers. -/
inductive FileReply where
  /-- The number of the new handle. -/
  | made (h : Nat)
  | bytes (bytes : Bytes)
  | length (n : Nat)
  | done

namespace Directory

variable {d d' start : Directory} {call : FileCall} {h offset : Nat} {src : Bytes} {handle : Handle}
  {name name' : String} {node : Nat}

/-- The handle with a number, unless it was given up. -/
def handle? (d : Directory) (h : Nat) : Option Handle := d.handles[h]?.join

/-- The name of the swap area that a call is about. -/
def about? (d : Directory) : FileCall → Option String
  | .create name _ => some name
  | .read h _ _ | .write h _ _ | .length h | .drop h => (d.handle? h).map (·.name)

/-- Uses a handle. -/
def through {α : Type} (d : Directory) (h : Nat) (use : Handle → Checked α) : Checked α :=
  match d.handle? h with
  | some handle => use handle
  | none => Violation.index.stop

/-- Carries out a call. -/
def serve (d : Directory) : FileCall → Checked (Except StoreError FileReply × Directory)
  | .create name capacity => do
    match ← (SwapFile.create name capacity).run.run d.files with
    | (.ok file, files) =>
      return (.ok (.made d.handles.length), ⟨files, d.handles ++ [some ⟨name, file⟩]⟩)
    | (.error e, files) => return (.error (.io e), { d with files })
  | .read h offset len => d.through h fun handle => do
    let (result, files) ← (handle.file.read offset len).run.run d.files
    return (result.map .bytes, { d with files })
  | .write h offset src => d.through h fun handle => do
    let (result, files) ← (handle.file.write offset src).run.run d.files
    return (result.map fun _ => .done, { d with files })
  | .length h => d.through h fun handle => return (.ok (.length (handle.file.length d.files)), d)
  | .drop h => d.through h fun handle =>
    return (.ok .done, ⟨handle.file.drop d.files, d.handles.set h none⟩)

theorem serve_create {capacity : Option Nat} {files : HostFiles}
    (hcreate : d.files.create (SwapFile.makeName name) = .ok (node, files)) :
    d.serve (.create name capacity) = .ok (.ok (.made d.handles.length),
      ⟨files, d.handles ++ [some ⟨name, ⟨SwapFile.makeName name, node, capacity⟩⟩]⟩) := by
  simp only [serve, SwapFile.run_create, hcreate]
  rfl

/-! ## What a call can do -/

/-- All that a call can do to the directory. -/
inductive Change (d : Directory) : FileCall → Directory → Prop where
  | same (call : FileCall) : Change d call d
  | emptied {name : String} {capacity : Option Nat} {node : Nat}
      (hfind : d.files.find? (SwapFile.makeName name) = some node) :
      Change d (.create name capacity) ⟨d.files.setContent node .empty,
        d.handles ++ [some ⟨name, ⟨SwapFile.makeName name, node, capacity⟩⟩]⟩
  | added {name : String} {capacity : Option Nat}
      (hfind : d.files.find? (SwapFile.makeName name) = none) :
      Change d (.create name capacity)
        ⟨⟨(SwapFile.makeName name, d.files.contents.length) :: d.files.names,
            d.files.contents ++ [.empty]⟩,
          d.handles ++ [some ⟨name, ⟨SwapFile.makeName name, d.files.contents.length, capacity⟩⟩]⟩
  | written {h offset : Nat} {src : Bytes} {handle : Handle}
      (hhandle : d.handle? h = some handle) (block : Block) :
      Change d (.write h offset src)
        { d with files := d.files.setContent handle.file.node block }
  | dropped {h : Nat} {handle : Handle} (hhandle : d.handle? h = some handle) :
      Change d (.drop h) ⟨d.files.remove handle.file.fileName, d.handles.set h none⟩

theorem Change.of_create {capacity : Option Nat} {files : HostFiles}
    (hcreate : d.files.create (SwapFile.makeName name) = .ok (node, files)) :
    Change d (.create name capacity)
      ⟨files, d.handles ++ [some ⟨name, ⟨SwapFile.makeName name, node, capacity⟩⟩]⟩ := by
  obtain ⟨hfind, rfl⟩ | ⟨hfind, rfl, rfl⟩ := HostFiles.create_cases hcreate
  · exact .emptied hfind
  · exact .added hfind

theorem ends_through {α : Type} {V : Violation → Prop} {use : Handle → Checked α} {Q : α → Prop}
    (hhandle : (d.handle? h).isSome)
    (huse : ∀ handle, d.handle? h = some handle → Checked.Ends V (use handle) Q) :
    Checked.Ends V (d.through h use) Q := by
  obtain ⟨handle, hhandle⟩ := Option.isSome_iff_exists.1 hhandle
  unfold through
  rw [hhandle]
  exact huse handle hhandle

theorem isSome_of_name (hname : (d.handle? h).map (·.name) = some name) : (d.handle? h).isSome := by
  obtain ⟨handle, hhandle, -⟩ := Option.map_eq_some_iff.1 hname
  rw [hhandle]
  rfl

/-- A write through a handle succeeds and gives its file other bytes, or changes nothing. -/
theorem ends_serve_write (hhandle : d.handle? h = some handle) :
    Checked.Ends (fun v => v = .overflow) (d.serve (.write h offset src)) fun r =>
      r = (.ok .done, { d with files := handle.file.written offset src d.files }) ∨
        (∃ e, r.1 = .error e) ∧ r.2 = d := by
  rw [serve, through, hhandle]
  dsimp only
  rw [Checked.ends_bind]
  refine Checked.Ends.imp SwapFile.ends_write ?_
  rintro ⟨result, files⟩ (⟨rfl, rfl⟩ | ⟨⟨e, rfl⟩, rfl⟩)
  · exact .inl rfl
  · exact .inr ⟨⟨e, rfl⟩, rfl⟩

theorem ends_serve (hcall : d.about? call = some name) :
    Checked.Ends (fun v => v = .overflow) (d.serve call) fun r => Change d call r.2 := by
  cases call with
  | create name capacity =>
    simp only [serve, SwapFile.run_create]
    cases hcreate : d.files.create (SwapFile.makeName name) with
    | error e => exact .same _
    | ok r => exact .of_create hcreate
  | read h offset len =>
    refine ends_through (isSome_of_name hcall) fun handle hhandle => ?_
    rw [Checked.ends_bind]
    refine Checked.Ends.imp SwapFile.ends_read ?_
    rintro ⟨result, files⟩ rfl
    exact .same _
  | write h offset src =>
    obtain ⟨handle, hhandle⟩ := Option.isSome_iff_exists.1 (isSome_of_name hcall)
    refine (ends_serve_write hhandle).imp ?_
    rintro ⟨answer, d'⟩ (hdone | ⟨-, rfl⟩)
    · cases hdone
      dsimp only
      unfold SwapFile.written
      split
      · exact .same _
      · exact .written hhandle _
    · exact .same _
  | length h =>
    refine ends_through (isSome_of_name hcall) fun handle hhandle => ?_
    exact .same _
  | drop h =>
    refine ends_through (isSome_of_name hcall) fun handle hhandle => ?_
    exact .dropped hhandle

/-! ## Names and files -/

/-- The name leads to the file: the directory has it, or a handle that was made with it. -/
def Leads (d : Directory) (name : String) (node : Nat) : Prop :=
  d.files.find? name = some node ∨
    ∃ h handle, d.handle? h = some handle ∧ handle.file.fileName = name ∧ handle.file.node = node

/-- Names lead to files that are there, and different names to different files. -/
structure Tidy (d : Directory) : Prop where
  inside : ∀ {name node}, d.Leads name node → node < d.files.contents.length
  apart : ∀ {name name' node}, d.Leads name node → d.Leads name' node → name = name'
  made : ∀ {h handle}, d.handle? h = some handle →
    handle.file.fileName = SwapFile.makeName handle.name

/-- Without handles, only the directory has names. -/
theorem tidy_of_apart {files : HostFiles} (hfiles : files.Apart) : Tidy ⟨files, []⟩ := by
  have hnone : ∀ h, (Directory.mk files []).handle? h = none := fun _ => rfl
  have hleads : ∀ {name node}, Leads ⟨files, []⟩ name node → files.find? name = some node := by
    rintro name node (hfound | ⟨h, handle, hhandle, -⟩)
    · exact hfound
    · cases (hnone h).symm.trans hhandle
  refine ⟨fun h => hfiles.inside (hleads h), fun h h' => hfiles.apart (hleads h) (hleads h'), ?_⟩
  intro h handle hhandle
  cases (hnone h).symm.trans hhandle

theorem Leads.of_handle (hhandle : d.handle? h = some handle) :
    d.Leads handle.file.fileName handle.file.node := .inr ⟨h, handle, hhandle, rfl, rfl⟩

theorem handle?_made {files : HostFiles} {made : Handle} :
    (Directory.mk files (d.handles ++ [some made])).handle? h =
      if h = d.handles.length then some made else d.handle? h := by
  unfold handle?
  rcases Nat.lt_trichotomy h d.handles.length with hlt | rfl | hgt
  · rw [List.getElem?_append_left hlt, if_neg (by omega)]
  · simp
  · rw [List.getElem?_eq_none (by simp; omega), List.getElem?_eq_none (by omega), if_neg (by omega)]

theorem handle?_dropped {files : HostFiles} {dropped : Nat} :
    (Directory.mk files (d.handles.set dropped none)).handle? h =
      if h = dropped then none else d.handle? h := by
  unfold handle?
  rw [List.getElem?_set]
  by_cases heq : dropped = h
  · rw [if_pos heq, if_pos heq.symm]
    split <;> rfl
  · rw [if_neg heq, if_neg (Ne.symm heq)]

theorem lt_of_handle? (hhandle : d.handle? h = some handle) : h < d.handles.length := by
  refine Nat.lt_of_not_le fun hle => ?_
  rw [handle?, List.getElem?_eq_none hle] at hhandle
  cases hhandle

/-- Whatever a call does, a name leads to none of the files that were there but its own. -/
theorem Change.leads (hchange : Change d call d') (hleads : d'.Leads name node) :
    d.Leads name node ∨ node = d.files.contents.length ∧ node < d'.files.contents.length ∧
      ∃ made, d.about? call = some made ∧ name = SwapFile.makeName made := by
  cases hchange with
  | same => exact .inl hleads
  | @emptied made capacity old hfind =>
    rcases hleads with hfound | ⟨h, handle, hhandle, hname, hnode⟩
    · exact .inl (.inl hfound)
    · rw [handle?_made] at hhandle
      split at hhandle
      · cases hhandle
        cases hname
        cases hnode
        exact .inl (.inl hfind)
      · exact .inl (.inr ⟨h, handle, hhandle, hname, hnode⟩)
  | @added made capacity hfind =>
    have hlength : d.files.contents.length < (d.files.contents ++ [Block.empty]).length := by simp
    rcases hleads with hfound | ⟨h, handle, hhandle, hname, hnode⟩
    · rw [HostFiles.find?, List.lookup_cons] at hfound
      split at hfound
      · next hsame =>
        cases hfound
        exact .inr ⟨rfl, hlength, made, rfl, beq_iff_eq.1 hsame⟩
      · exact .inl (.inl hfound)
    · rw [handle?_made] at hhandle
      split at hhandle
      · cases hhandle
        exact .inr ⟨hnode.symm, hnode ▸ hlength, made, rfl, hname.symm⟩
      · exact .inl (.inr ⟨h, handle, hhandle, hname, hnode⟩)
  | written hwritten block => exact .inl hleads
  | dropped hdropped =>
    rcases hleads with hfound | ⟨h, handle, hhandle, hname, hnode⟩
    · rw [HostFiles.find?_remove] at hfound
      split at hfound
      · cases hfound
      · exact .inl (.inl hfound)
    · rw [handle?_dropped] at hhandle
      split at hhandle
      · cases hhandle
      · exact .inl (.inr ⟨h, handle, hhandle, hname, hnode⟩)

theorem Change.length_le (hchange : Change d call d') :
    d.files.contents.length ≤ d'.files.contents.length := by
  cases hchange with
  | same => exact Nat.le_refl _
  | emptied => exact Nat.le_of_eq HostFiles.length_contents_setContent.symm
  | added => simp
  | written => exact Nat.le_of_eq HostFiles.length_contents_setContent.symm
  | dropped => exact Nat.le_refl _

theorem Change.made (hchange : Change d call d') (hhandle : d'.handle? h = some handle) :
    d.handle? h = some handle ∨ handle.file.fileName = SwapFile.makeName handle.name := by
  cases hchange with
  | same => exact .inl hhandle
  | emptied hfind =>
    rw [handle?_made] at hhandle
    split at hhandle
    · cases hhandle
      exact .inr rfl
    · exact .inl hhandle
  | added hfind =>
    rw [handle?_made] at hhandle
    split at hhandle
    · cases hhandle
      exact .inr rfl
    · exact .inl hhandle
  | written hwritten block => exact .inl hhandle
  | dropped hdropped =>
    rw [handle?_dropped] at hhandle
    split at hhandle
    · cases hhandle
    · exact .inl hhandle

theorem Change.tidy (hchange : Change d call d') (h : d.Tidy) : d'.Tidy where
  inside hleads := by
    rcases hchange.leads hleads with hold | ⟨-, hinside, -⟩
    · exact Nat.lt_of_lt_of_le (h.inside hold) hchange.length_le
    · exact hinside
  apart hleads hleads' := by
    -- a file that was there has a smaller number than one that was added
    rcases hchange.leads hleads with hold | ⟨hnew, -, made, hmade, rfl⟩
    · rcases hchange.leads hleads' with hold' | ⟨hnew', -⟩
      · exact h.apart hold hold'
      · exact absurd (h.inside hold) (Nat.not_lt.2 (Nat.le_of_eq hnew'.symm))
    · rcases hchange.leads hleads' with hold' | ⟨-, -, made', hmade', rfl⟩
      · exact absurd (h.inside hold') (Nat.not_lt.2 (Nat.le_of_eq hnew.symm))
      · rw [Option.some.inj (hmade.symm.trans hmade')]
  made hhandle := by
    rcases hchange.made hhandle with hold | hmade
    · exact h.made hold
    · exact hmade

/-- The handle that a call is on was made with the name that the call is about. -/
theorem Tidy.fileName_eq (htidy : d.Tidy) (hhandle : d.handle? h = some handle)
    (hcall : (d.handle? h).map (·.name) = some name) :
    handle.file.fileName = SwapFile.makeName name := by
  rw [hhandle] at hcall
  cases hcall
  exact htidy.made hhandle

/-! ## Other files -/

/-- A call leaves alone what other names lead to. -/
theorem Change.leaves (hchange : Change d call d') (htidy : d.Tidy)
    (hhandle : d.handle? h = some handle) (hcall : d.about? call = some name)
    (hother : SwapFile.makeName name ≠ handle.file.fileName) :
    d'.handle? h = some handle ∧
      d'.files.content handle.file.node = d.files.content handle.file.node ∧
        d'.files.find? handle.file.fileName = d.files.find? handle.file.fileName := by
  have hleads := Leads.of_handle hhandle
  have hlength : h < d.handles.length := lt_of_handle? hhandle
  cases hchange with
  | same => exact ⟨hhandle, rfl, rfl⟩
  | @emptied made capacity old hfind =>
    cases hcall
    have hne : old ≠ handle.file.node := by
      rintro rfl
      exact hother (htidy.apart (.inl hfind) hleads)
    refine ⟨?_, HostFiles.content_setContent_ne hne, rfl⟩
    rw [handle?_made, if_neg (by omega)]
    exact hhandle
  | @added made capacity hfind =>
    cases hcall
    refine ⟨?_, ?_, ?_⟩
    · rw [handle?_made, if_neg (by omega)]
      exact hhandle
    · unfold HostFiles.content
      rw [List.getElem?_append_left (htidy.inside hleads)]
    · rw [HostFiles.find?, List.lookup_cons, beq_eq_false_iff_ne.2 hother.symm]
      rfl
  | @written h₁ offset src writer hwriter block =>
    have hname : writer.file.fileName = SwapFile.makeName name := htidy.fileName_eq hwriter hcall
    have hne : writer.file.node ≠ handle.file.node := by
      intro hsame
      refine hother (hname.symm.trans (htidy.apart (Leads.of_handle hwriter) ?_))
      exact hsame ▸ hleads
    exact ⟨hhandle, HostFiles.content_setContent_ne hne, rfl⟩
  | @dropped h₁ dropped hdropped =>
    have hname : dropped.file.fileName = SwapFile.makeName name := htidy.fileName_eq hdropped hcall
    refine ⟨?_, rfl, ?_⟩
    · have hne : h ≠ h₁ := by
        rintro rfl
        cases hhandle.symm.trans hdropped
        exact hother hname.symm
      rw [handle?_dropped, if_neg hne]
      exact hhandle
    · exact HostFiles.find?_remove.trans (if_neg (hname ▸ hother.symm))

/-- A handle is left, and its file is as it was. -/
structure Unaffected (d d' : Directory) (h : Nat) (handle : Handle) : Prop where
  live : d'.handle? h = some handle
  length : handle.file.length d'.files = handle.file.length d.files
  read : ∀ offset len, Prod.fst <$> (handle.file.read offset len).run.run d'.files =
    Prod.fst <$> (handle.file.read offset len).run.run d.files
  /-- The name leads to the same file as before, or to none as before. -/
  named : d'.files.find? handle.file.fileName = d.files.find? handle.file.fileName

theorem Change.unaffected (hchange : Change d call d') (htidy : d.Tidy)
    (hhandle : d.handle? h = some handle) (hcall : d.about? call = some name)
    (hother : SwapFile.makeName name ≠ handle.file.fileName) : Unaffected d d' h handle := by
  obtain ⟨hlive, hcontent, hnamed⟩ := hchange.leaves htidy hhandle hcall hother
  exact ⟨hlive, congrArg Block.size hcontent, fun _ _ => SwapFile.run_read_congr hcontent, hnamed⟩

/-! ## Any calls -/

/-- The directories that calls lead to. -/
inductive Reached (start : Directory) : Directory → Prop where
  | start : Reached start start
  | call {d d' : Directory} {call : FileCall} {answer : Except StoreError FileReply}
      (hd : Reached start d) (hrun : d.serve call = .ok (answer, d')) : Reached start d'

theorem exists_of_through {α : Type} {use : Handle → Checked α} {a : α}
    (hrun : d.through h use = .ok a) : ∃ name, (d.handle? h).map (·.name) = some name := by
  unfold through at hrun
  cases hhandle : d.handle? h with
  | none =>
    rw [hhandle] at hrun
    cases hrun
  | some handle => exact ⟨handle.name, rfl⟩

theorem exists_about?_of_serve {answer : Except StoreError FileReply}
    (hrun : d.serve call = .ok (answer, d')) : ∃ name, d.about? call = some name := by
  cases call with
  | create name capacity => exact ⟨name, rfl⟩
  | read h offset len => exact exists_of_through hrun
  | write h offset src => exact exists_of_through hrun
  | length h => exact exists_of_through hrun
  | drop h => exact exists_of_through hrun

theorem Reached.tidy (hstart : start.Tidy) (h : Reached start d) : d.Tidy := by
  induction h with
  | start => exact hstart
  | call _ hrun ih =>
    obtain ⟨name, hname⟩ := exists_about?_of_serve hrun
    have hchange : Change _ _ _ := (Checked.ends_of_eq_ok hrun).1 (ends_serve hname)
    exact hchange.tidy ih

end Directory

/-! ## Two files -/

section TwoFiles

open SwapFile

theorem pathError?_swap_1 {files : HostFiles} : files.pathError? (makeName "swap_1") = none :=
  HostFiles.pathError?_of_plain (by decide +kernel) (by decide +kernel) (by decide +kernel)

/-- The directory with one swap file, and with another one. -/
def oneFile : HostFiles := ⟨[(makeName "swap_1", 0)], [.empty]⟩

def twoFiles : HostFiles := ⟨[(makeName "swap_2", 1), (makeName "swap_1", 0)], [.empty, .empty]⟩

def firstHandle : Handle := ⟨"swap_1", ⟨makeName "swap_1", 0, none⟩⟩

def secondHandle (capacity : Option Nat) : Handle := ⟨"swap_2", ⟨makeName "swap_2", 1, capacity⟩⟩

theorem create_swap_1 : HostFiles.create {} (makeName "swap_1") = .ok (0, oneFile) :=
  HostFiles.create_new pathError?_swap_1 rfl

theorem create_swap_2 : oneFile.create (makeName "swap_2") = .ok (1, twoFiles) := by
  refine HostFiles.create_new ?_ (by decide +kernel)
  exact HostFiles.pathError?_of_plain (by decide +kernel) (by decide +kernel) (by decide +kernel)

theorem serve_create_swap_2 {capacity : Option Nat} :
    Directory.serve ⟨oneFile, [some firstHandle]⟩ (.create "swap_2" capacity) =
      .ok (.ok (.made 1), ⟨twoFiles, [some firstHandle, some (secondHandle capacity)]⟩) :=
  Directory.serve_create create_swap_2

theorem reached_oneFile : Directory.Reached ⟨{}, []⟩ ⟨oneFile, [some firstHandle]⟩ :=
  Directory.Reached.start.call (Directory.serve_create create_swap_1)

end TwoFiles

end DemandPaging
