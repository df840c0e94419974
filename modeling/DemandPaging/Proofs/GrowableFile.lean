/-
  A swap file is an array of bytes that grows.

  As long as no other handle uses its name, a handle finds in its file what the writes through it
  that succeeded have left there: at each place the byte that was written last, or zero in a hole
  (`lastByte`), up to the largest end of a write (`extentOf`).  Neither calls on other files nor
  transfers that fail have a part in it.

  * `LoneFile.isArray`: the bytes of a file are a store that is an array;
  * `Holds.serve`: what one call leaves in the file of a handle;
  * `Kept.holds`: what any calls leave there;
  * `swap_file_is_growable`: so the next transfer is served as by an array.
-/
import DemandPaging.Proofs.ArrayStore
import DemandPaging.Proofs.Directory

namespace DemandPaging

/-! ## What writes leave -/

/-- Bytes that were written from a place on. -/
structure FileWrite where
  offset : Nat
  src : Bytes
deriving DecidableEq, Repr

namespace FileWrite

/-- Where the bytes end. -/
def stop (w : FileWrite) : Nat := w.offset + w.src.length

/-- The byte that was written at a place, if one was. -/
def byte? (w : FileWrite) (i : Nat) : Option UInt8 :=
  if i < w.offset then none else w.src[i - w.offset]?

end FileWrite

/-- The largest end of the writes that are not empty, or zero if there are none. -/
def extentOf (writes : List FileWrite) : Nat :=
  ((writes.filter fun w => !w.src.isEmpty).map FileWrite.stop).max?.getD 0

/-- The byte that was written last at a place, or zero if none was.  The last write comes first. -/
def lastByte (writes : List FileWrite) (i : Nat) : UInt8 :=
  (writes.findSome? fun w => w.byte? i).getD 0

section Writes

variable {w : FileWrite} {writes : List FileWrite}

theorem extentOf_cons : extentOf (w :: writes) =
    if w.src.isEmpty then extentOf writes else max (extentOf writes) w.stop := by
  unfold extentOf
  rw [List.filter_cons]
  cases w.src.isEmpty with
  | true => rfl
  | false =>
    simp only [Bool.not_false, if_true, List.map_cons, List.max?_cons, Option.getD_some,
      Bool.false_eq_true, if_false]
    cases ((writes.filter fun w => !w.src.isEmpty).map FileWrite.stop).max? with
    | none => exact (Nat.zero_max _).symm
    | some n => exact Nat.max_comm _ _

theorem lastByte_cons : lastByte (w :: writes) = writeAt (lastByte writes) w.offset w.src := by
  funext i
  unfold lastByte writeAt
  rw [List.findSome?_cons, FileWrite.byte?]
  by_cases hlow : i < w.offset
  · rw [if_pos hlow, if_pos hlow]
  · rw [if_neg hlow, if_neg hlow]
    cases w.src[i - w.offset]? <;> rfl

end Writes

/-! ## Transfers -/

namespace SwapFile

variable {file : SwapFile} {files : HostFiles} {offset len : Nat} {src : Bytes}

theorem byte_written (h : file.node < files.contents.length) :
    ((file.written offset src files).content file.node).byte =
      writeAt (files.content file.node).byte offset src := by
  unfold written
  split
  · next hempty => rw [List.isEmpty_iff.1 hempty, writeAt_nil]
  · rw [HostFiles.content_setContent_self h, Block.byte_put]

theorem length_written (h : file.node < files.contents.length) :
    file.length (file.written offset src files) =
      if src.isEmpty then file.length files else max (file.length files) (offset + src.length) := by
  unfold written length
  split
  · rfl
  · rw [HostFiles.content_setContent_self h, Block.size_put]

/-- A write that ends below `limit63` succeeds if it ends within the capacity. -/
theorem ends_write_below (hlt : offset + src.length < limit63) :
    Ends (fun _ => False) (file.write offset src).run files fun r files' =>
      file.Fits (offset + src.length) ∧ r = .ok () ∧ files' = file.written offset src files ∨
        ¬ file.Fits (offset + src.length) ∧ r = .error .overCapacity ∧ files' = files :=
  ends_transfer_below hlt (fun hfits => ends_put.imp fun _ _ h => .inl ⟨hfits, h⟩) fun hpast =>
    .inr ⟨hpast, rfl, rfl⟩

/-- What can come of a read that ends below `limit63`, where the file has `size` bytes. -/
inductive ReadBelow (file : SwapFile) (size : Nat) (content : Nat → UInt8) (offset len : Nat) :
    Except StoreError Bytes → Prop where
  | past (hpast : ¬ file.Fits (offset + len)) :
      ReadBelow file size content offset len (.error .overCapacity)
  | short (hfits : file.Fits (offset + len)) (hlen : len ≠ 0) (hshort : size < offset + len) :
      ReadBelow file size content offset len (.error (.io .unexpectedEof))
  | done (hfits : file.Fits (offset + len)) (hin : len = 0 ∨ offset + len ≤ size) :
      ReadBelow file size content offset len (.ok (bytesAt content offset len))

theorem ends_read_below (hlt : offset + len < limit63) :
    Ends (fun _ => False) (file.read offset len).run files fun r files' =>
      files' = files ∧
        file.ReadBelow (file.length files) (files.content file.node).byte offset len r := by
  refine ends_transfer_below hlt (fun hfits => ?_) fun hpast => ⟨rfl, .past hpast⟩
  simp only [ends_bind, ends_get, ends_ite, ends_throw, ends_pure, true_and]
  refine ⟨fun hboth => .short hfits (Nat.ne_of_gt hboth.1) hboth.2, fun hin => ?_⟩
  have hin : 0 < len → offset + len ≤ file.length files := fun hpos =>
    Nat.not_lt.1 fun hshort => hin ⟨hpos, hshort⟩
  have hslice : (files.content file.node).slice offset len =
      bytesAt (files.content file.node).byte offset len := Block.slice_eq_bytesAt hin
  rw [hslice]
  exact .done hfits ((Nat.eq_zero_or_pos len).imp_right hin)

end SwapFile

/-- A file by itself is a store that is an array.  Without a capacity nothing stops it. -/
theorem LoneFile.isArray {capacity : Option Nat} :
    IsArray (fun v => capacity.isSome = true ∧ v = .overflow)
      fun lone : LoneFile capacity => lone.bytes.byte where
  read lone offset len := by
    refine SwapFile.ends_transfer (fun _ => ?_) (fun _ => ⟨rfl, by simp⟩) (fun _ => ⟨rfl, by simp⟩)
      fun hcap _ => ⟨hcap, rfl⟩
    simp only [ends_bind, ends_get, ends_ite, ends_throw, ends_pure, true_and]
    refine ⟨fun _ => by simp, fun hin => ?_⟩
    rintro _ ⟨⟩
    exact Block.slice_eq_bytesAt fun hpos => Nat.not_lt.1 fun hshort => hin ⟨hpos, hshort⟩
  write lone offset src := by
    refine SwapFile.ends_transfer (fun _ => ?_) (fun _ => ⟨by simp, fun _ _ => rfl⟩)
      (fun _ => ⟨by simp, fun _ _ => rfl⟩) fun hcap _ => ⟨hcap, rfl⟩
    cases hempty : src.isEmpty with
    | true =>
      rw [List.isEmpty_iff.1 hempty]
      exact ⟨fun _ => writeAt_nil.symm, by simp⟩
    | false => exact ⟨fun _ => Block.byte_put, by simp⟩

namespace Directory

variable {files : HostFiles} {d d' : Directory} {h offset len : Nat} {src : Bytes} {handle : Handle}
  {call : FileCall} {answer : Except StoreError FileReply} {name : String}

theorem serve_read {r : Except StoreError Bytes} (hhandle : d.handle? h = some handle)
    (hrun : (handle.file.read offset len).run.run d.files = .ok (r, files)) :
    d.serve (.read h offset len) = .ok (r.map .bytes, { d with files }) := by
  rw [serve, through, hhandle]
  dsimp only
  rw [hrun]
  rfl

theorem serve_write {r : Except StoreError Unit} (hhandle : d.handle? h = some handle)
    (hrun : (handle.file.write offset src).run.run d.files = .ok (r, files)) :
    d.serve (.write h offset src) = .ok (r.map fun _ => .done, { d with files }) := by
  rw [serve, through, hhandle]
  dsimp only
  rw [hrun]
  rfl

theorem serve_length (hhandle : d.handle? h = some handle) :
    d.serve (.length h) = .ok (.ok (.length (handle.file.length d.files)), d) := by
  rw [serve, through, hhandle]
  rfl

/-- What a call that makes a handle has done. -/
theorem exists_create_of_made {capacity : Option Nat}
    (hrun : d.serve (.create name capacity) = .ok (.ok (.made h), d')) :
    ∃ node files, d.files.create (SwapFile.makeName name) = .ok (node, files) ∧
      h = d.handles.length ∧
        d' = ⟨files, d.handles ++ [some ⟨name, ⟨SwapFile.makeName name, node, capacity⟩⟩]⟩ := by
  cases hcreate : d.files.create (SwapFile.makeName name) with
  | error e =>
    rw [serve, SwapFile.run_create, hcreate] at hrun
    cases hrun
  | ok made =>
    obtain ⟨node, files⟩ := made
    rw [serve_create hcreate] at hrun
    cases hrun
    exact ⟨node, files, rfl, rfl, rfl⟩

/-! ## The only handle with a name -/

/-- The handle is live, and no other one uses the name of its file. -/
structure Sole (d : Directory) (h : Nat) (handle : Handle) : Prop where
  live : d.handle? h = some handle
  only : ∀ {h' handle'}, d.handle? h' = some handle' →
    handle'.file.fileName = handle.file.fileName → h' = h

theorem Sole.with_files (hsole : d.Sole h handle) : Sole { d with files } h handle :=
  ⟨hsole.live, hsole.only⟩

/-- No other handle can be made with the name. -/
theorem Sole.not_made {made : Handle} (hlive : d.handle? h = some handle)
    (hsole : Sole ⟨files, d.handles ++ [some made]⟩ h handle) :
    made.file.fileName ≠ handle.file.fileName := by
  intro hname
  have hmade : (Directory.mk files (d.handles ++ [some made])).handle? d.handles.length =
      some made := by rw [handle?_made, if_pos rfl]
  have hlt : h < d.handles.length := lt_of_handle? hlive
  exact Nat.ne_of_gt hlt (hsole.only hmade hname)

/-- The bytes of the file change by writes through the handle only. -/
theorem Sole.content_eq (htidy : d.Tidy) (hsole : d.Sole h handle) (hsole' : d'.Sole h handle)
    (hchange : Change d call d') (hcall : d.about? call = some name)
    (hother : ∀ offset src, call ≠ .write h offset src) :
    d'.files.content handle.file.node = d.files.content handle.file.node := by
  by_cases hname : SwapFile.makeName name = handle.file.fileName
  -- a call about the name goes through the handle, as no other one has it
  · cases hchange with
    | same => rfl
    | emptied =>
      cases hcall
      exact absurd hname (hsole'.not_made hsole.live)
    | added =>
      cases hcall
      exact absurd hname (hsole'.not_made hsole.live)
    | @written h' offset src writer hwriter block =>
      have hsame : h' = h := hsole.only hwriter ((htidy.fileName_eq hwriter hcall).trans hname)
      exact absurd rfl (hsame ▸ hother offset src)
    | dropped => rfl
  · exact (hchange.leaves htidy hsole.live hcall hname).2.1

/-! ## Any calls -/

/-- Calls with their answers, the last of which come first. -/
abbrev CallRecord := List (FileCall × Except StoreError FileReply)

/-- The write through a handle that a call was, if it succeeded. -/
def write? (h : Nat) : FileCall × Except StoreError FileReply → Option FileWrite
  | (.write h' offset src, .ok _) => if h' = h then some ⟨offset, src⟩ else none
  | _ => none

/-- The writes through a handle that succeeded, among the calls of a record. -/
def writesThrough (h : Nat) (record : CallRecord) : List FileWrite := record.filterMap (write? h)

/-- The calls since a handle was made.  All the time no other handle has used its name. -/
inductive Kept (files : HostFiles) (h : Nat) (handle : Handle) : CallRecord → Directory → Prop where
  | made {d d' : Directory} (hd : Reached ⟨files, []⟩ d)
      (hrun : d.serve (.create handle.name handle.file.capacity) = .ok (.ok (.made h), d'))
      (hsole : d'.Sole h handle) : Kept files h handle [] d'
  | call {record : CallRecord} {d d' : Directory} {call : FileCall}
      {answer : Except StoreError FileReply} (hkept : Kept files h handle record d)
      (hrun : d.serve call = .ok (answer, d')) (hsole : d'.Sole h handle) :
      Kept files h handle ((call, answer) :: record) d'

/-- The file of a handle holds what some writes have left. -/
structure Holds (d : Directory) (handle : Handle) (writes : List FileWrite) : Prop where
  length : handle.file.length d.files = extentOf writes
  byte : (d.files.content handle.file.node).byte = lastByte writes

section Runs

variable {writes : List FileWrite} {record : CallRecord}

/-- A file that has just been made holds nothing. -/
theorem Holds.made (htidy : d.Tidy) (hsole : d'.Sole h handle)
    (hrun : d.serve (.create handle.name handle.file.capacity) = .ok (.ok (.made h), d')) :
    d'.Holds handle [] := by
  obtain ⟨node, files, hcreate, rfl, rfl⟩ := exists_create_of_made hrun
  have hlive := hsole.live
  rw [handle?_made, if_pos rfl] at hlive
  have hnode : node = handle.file.node := congrArg (·.file.node) (Option.some.inj hlive)
  obtain ⟨-, hempty⟩ := HostFiles.content_create hcreate fun hfind => htidy.inside (.inl hfind)
  rw [hnode] at hempty
  exact ⟨congrArg Block.size hempty, (congrArg Block.byte hempty).trans Block.byte_empty⟩

/-- A write puts its bytes into the file. -/
theorem Holds.write (hholds : d.Holds handle writes)
    (hinside : handle.file.node < d.files.contents.length) :
    Holds { d with files := handle.file.written offset src d.files } handle
      (⟨offset, src⟩ :: writes) where
  length := by rw [extentOf_cons, SwapFile.length_written hinside, hholds.length, FileWrite.stop]
  byte := by rw [lastByte_cons, SwapFile.byte_written hinside, hholds.byte]

/-- After a call the file holds what it held, and what was written by the call. -/
theorem Holds.serve (hholds : d.Holds handle writes) (htidy : d.Tidy) (hsole : d.Sole h handle)
    (hsole' : d'.Sole h handle) (hrun : d.serve call = .ok (answer, d')) :
    d'.Holds handle ((write? h (call, answer)).toList ++ writes) := by
  by_cases hown : ∃ offset src, call = .write h offset src
  · obtain ⟨offset, src, rfl⟩ := hown
    have hinside := htidy.inside (Leads.of_handle hsole.live)
    rcases (Checked.ends_of_eq_ok hrun).1 (ends_serve_write hsole.live) with hdone | ⟨⟨e, rfl⟩, rfl⟩
    · cases hdone
      have hwrite : write? h (.write h offset src, .ok .done) = some ⟨offset, src⟩ := if_pos rfl
      rw [hwrite]
      exact hholds.write hinside
    · exact hholds
  · have hother : ∀ offset src, call ≠ .write h offset src := fun offset src hcall =>
      hown ⟨offset, src, hcall⟩
    have hnone : write? h (call, answer) = none := by
      unfold write?
      split
      · next h' offset src reply heq =>
        cases heq
        exact if_neg fun (hsame : h' = h) => hother offset src (hsame ▸ rfl)
      · rfl
    obtain ⟨name, hname⟩ := exists_about?_of_serve hrun
    have hchange : Change d call d' := (Checked.ends_of_eq_ok hrun).1 (ends_serve hname)
    have hcontent := hsole.content_eq htidy hsole' hchange hname hother
    rw [hnone]
    exact ⟨(congrArg Block.size hcontent).trans hholds.length,
      (congrArg Block.byte hcontent).trans hholds.byte⟩

theorem Kept.sole (hkept : Kept files h handle record d) : d.Sole h handle := by
  cases hkept with
  | made _ _ hsole => exact hsole
  | call _ _ hsole => exact hsole

theorem Kept.reached (hkept : Kept files h handle record d) : Reached ⟨files, []⟩ d := by
  induction hkept with
  | made hd hrun _ => exact hd.call hrun
  | call _ hrun _ ih => exact ih.call hrun

theorem Kept.tidy (hfiles : files.Apart) (hkept : Kept files h handle record d) : d.Tidy :=
  hkept.reached.tidy (tidy_of_apart hfiles)

theorem writesThrough_cons {entry : FileCall × Except StoreError FileReply} :
    writesThrough h (entry :: record) = (write? h entry).toList ++ writesThrough h record := by
  unfold writesThrough
  rw [List.filterMap_cons]
  cases write? h entry <;> rfl

/-- Whatever was called, the file holds what was written through the handle. -/
theorem Kept.holds (hfiles : files.Apart) (hkept : Kept files h handle record d) :
    d.Holds handle (writesThrough h record) := by
  induction hkept with
  | made hd hrun hsole => exact .made (hd.tidy (tidy_of_apart hfiles)) hsole hrun
  | call hkept hrun hsole ih =>
    rw [writesThrough_cons]
    exact ih.serve (hkept.tidy hfiles) hkept.sole hsole hrun

/-! ## The next transfer -/

/-- A write is served as by an array of bytes with a capacity. -/
structure WriteServed (capacity : Option Nat) (d : Directory) (offset : Nat) (src : Bytes)
    (answer : Except StoreError FileReply) (d' : Directory) : Prop where
  succeeds : (∃ reply, answer = .ok reply) ↔ ∀ n ∈ capacity, offset + src.length ≤ n
  /-- If it fails, nothing changes. -/
  refused : ∀ e, answer = .error e → e = .overCapacity ∧ d' = d

/-- A read is served as by the array that some writes have left. -/
structure ReadServed (capacity : Option Nat) (writes : List FileWrite) (offset len : Nat)
    (answer : Except StoreError FileReply) : Prop where
  succeeds : (∃ reply, answer = .ok reply) ↔
    (∀ n ∈ capacity, offset + len ≤ n) ∧ (len = 0 ∨ offset + len ≤ extentOf writes)
  answers : ∀ reply, answer = .ok reply → reply = .bytes (bytesAt (lastByte writes) offset len)
  /-- The capacity is looked at before the end of the file. -/
  refused : ∀ e, answer = .error e →
    e = .overCapacity ∧ (¬ ∀ n ∈ capacity, offset + len ≤ n) ∨
      e = .io .unexpectedEof ∧ (∀ n ∈ capacity, offset + len ≤ n) ∧ extentOf writes < offset + len

/-- After some calls, what comes of the next one through the handle. -/
structure Growable (files : HostFiles) (h : Nat) (handle : Handle) (record : CallRecord)
    (d : Directory) : Prop where
  length : d.serve (.length h) = .ok (.ok (.length (extentOf (writesThrough h record))), d)
  write : ∀ offset src, offset + src.length < limit63 → ∃ answer d',
    d.serve (.write h offset src) = .ok (answer, d') ∧
      WriteServed handle.file.capacity d offset src answer d' ∧
        Kept files h handle ((.write h offset src, answer) :: record) d'
  read : ∀ offset len, offset + len < limit63 → ∃ answer,
    d.serve (.read h offset len) = .ok (answer, d) ∧
      ReadServed handle.file.capacity (writesThrough h record) offset len answer ∧
        Kept files h handle ((.read h offset len, answer) :: record) d

theorem WriteServed.of_write (hhandle : d.handle? h = some handle)
    (hlt : offset + src.length < limit63) : ∃ answer files,
      d.serve (.write h offset src) = .ok (answer, { d with files }) ∧
        WriteServed handle.file.capacity d offset src answer { d with files } := by
  obtain ⟨r, files, hrun, hcases⟩ := ends_iff_eq_ok.1 (SwapFile.ends_write_below hlt)
  refine ⟨_, files, serve_write hhandle hrun, ?_⟩
  rcases hcases with ⟨hfits, rfl, -⟩ | ⟨hpast, rfl, rfl⟩
  · exact ⟨⟨fun _ => hfits, fun _ => ⟨_, rfl⟩⟩, nofun⟩
  · refine ⟨⟨nofun, fun hfits => absurd hfits hpast⟩, ?_⟩
    rintro _ ⟨⟩
    exact ⟨rfl, rfl⟩

theorem Holds.read (hholds : d.Holds handle writes) (hhandle : d.handle? h = some handle)
    (hlt : offset + len < limit63) : ∃ answer, d.serve (.read h offset len) = .ok (answer, d) ∧
      ReadServed handle.file.capacity writes offset len answer := by
  obtain ⟨r, files, hrun, rfl, hread⟩ := ends_iff_eq_ok.1 (SwapFile.ends_read_below hlt)
  refine ⟨_, serve_read hhandle hrun, ?_⟩
  rw [hholds.length, hholds.byte] at hread
  cases hread with
  | past hpast =>
    refine ⟨⟨nofun, fun hok => absurd hok.1 hpast⟩, nofun, ?_⟩
    rintro _ ⟨⟩
    exact .inl ⟨rfl, hpast⟩
  | short hfits hlen hshort =>
    refine ⟨⟨nofun, fun hok => ?_⟩, nofun, ?_⟩
    · have hin := hok.2
      omega
    · rintro _ ⟨⟩
      exact .inr ⟨rfl, hfits, hshort⟩
  | done hfits hin =>
    refine ⟨⟨fun _ => ⟨hfits, hin⟩, fun _ => ⟨_, rfl⟩⟩, ?_, nofun⟩
    rintro _ ⟨⟩
    rfl

end Runs

end Directory

/-- Take any directory, and any handle in it.  As long as no other handle uses its name, its file
    is an array of bytes that grows, whatever was called before.  It is as long as the largest end
    of a write through the handle, and the next transfer is served up to the capacity: a read
    within the file answers what was written last at each place, and a failure changes nothing. -/
theorem swap_file_is_growable {files : HostFiles} {h : Nat} {handle : Handle}
    {record : Directory.CallRecord} {d : Directory} (hfiles : files.Apart)
    (hkept : Directory.Kept files h handle record d) :
    Directory.Growable files h handle record d where
  length := by rw [Directory.serve_length hkept.sole.live, (hkept.holds hfiles).length]
  write offset src hlt := by
    obtain ⟨answer, files', hrun, hserved⟩ :=
      Directory.WriteServed.of_write hkept.sole.live (h := h) hlt
    exact ⟨answer, _, hrun, hserved, hkept.call hrun hkept.sole.with_files⟩
  read offset len hlt := by
    obtain ⟨answer, hrun, hserved⟩ := (hkept.holds hfiles).read hkept.sole.live hlt
    exact ⟨answer, hrun, hserved, hkept.call hrun hkept.sole⟩

/-- The handle of a file of eight bytes at most. -/
def cappedHandle : Handle := secondHandle (some 8)

theorem sole_cappedHandle (files : HostFiles) :
    Directory.Sole ⟨files, [some firstHandle, some cappedHandle]⟩ 1 cappedHandle := by
  refine ⟨rfl, fun {h' handle'} hhandle hname => ?_⟩
  match h', hhandle with
  | 0, hhandle =>
    cases hhandle
    exact absurd hname (by decide +kernel)
  | 1, _ => rfl
  | n + 2, hhandle => cases hhandle

/-- A file of eight bytes at most, with a hole, two writes that overlap, one that is refused, and
    one to another file in between. -/
theorem swap_file_is_growable_with_hole : ∃ handle record d, HostFiles.Apart {} ∧
    Directory.Kept {} 1 handle record d ∧ handle.file.capacity = some 8 ∧
      Directory.writesThrough 1 record = [⟨3, [5]⟩, ⟨2, [1, 2]⟩] ∧
        d.serve (.length 1) = .ok (.ok (.length 4), d) ∧
          d.serve (.read 1 0 4) = .ok (.ok (.bytes [0, 0, 1, 5]), d) ∧
            d.serve (.read 1 2 3) = .ok (.error (.io .unexpectedEof), d) ∧
              d.serve (.read 1 8 0) = .ok (.ok (.bytes []), d) := by
  have hapart : HostFiles.Apart {} := ⟨nofun, nofun⟩
  have hmade : Directory.Kept {} 1 cappedHandle []
      ⟨twoFiles, [some firstHandle, some cappedHandle]⟩ :=
    .made reached_oneFile serve_create_swap_2 (sole_cappedHandle _)
  have hfirst : Directory.Kept {} 1 cappedHandle [(.write 1 2 [1, 2], .ok .done)] ⟨_, _⟩ :=
    hmade.call rfl (sole_cappedHandle _)
  have hbetween : Directory.Kept {} 1 cappedHandle [(.write 0 0 [9], .ok .done),
      (.write 1 2 [1, 2], .ok .done)] ⟨_, _⟩ := hfirst.call rfl (sole_cappedHandle _)
  have hkept : Directory.Kept {} 1 cappedHandle [(.write 1 3 [5], .ok .done),
      (.write 1 7 [3, 4], .error .overCapacity), (.write 0 0 [9], .ok .done),
      (.write 1 2 [1, 2], .ok .done)] ⟨_, _⟩ :=
    (hbetween.call rfl (sole_cappedHandle _)).call rfl (sole_cappedHandle _)
  have hgrow := swap_file_is_growable hapart hkept
  have hfits : ∀ {stop}, stop ≤ 8 → ∀ n ∈ cappedHandle.file.capacity, stop ≤ n := by
    rintro stop hle _ ⟨⟩
    exact hle
  refine ⟨cappedHandle, _, _, hapart, hkept, rfl, rfl, hgrow.length, ?_, ?_, ?_⟩
  · obtain ⟨answer, hrun, hserved, -⟩ := hgrow.read 0 4 (by decide)
    obtain ⟨reply, rfl⟩ := hserved.succeeds.2 ⟨hfits (by decide), .inr (by decide)⟩
    rw [hrun, hserved.answers reply rfl]
    rfl
  · obtain ⟨answer, hrun, hserved, -⟩ := hgrow.read 2 3 (by decide)
    cases answer with
    | ok reply => exact absurd (hserved.succeeds.1 ⟨reply, rfl⟩).2 (by decide)
    | error e =>
      obtain ⟨-, hpast⟩ | ⟨rfl, -⟩ := hserved.refused e rfl
      · exact absurd (hfits (by decide)) hpast
      · exact hrun
  · obtain ⟨answer, hrun, hserved, -⟩ := hgrow.read 8 0 (by decide)
    obtain ⟨reply, rfl⟩ := hserved.succeeds.2 ⟨hfits (by decide), .inl rfl⟩
    rw [hrun, hserved.answers reply rfl]
    rfl

end DemandPaging
