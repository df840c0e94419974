/-
  Ranges that are checked before they are used.

  Main memory, and a file with a capacity, work out where a range ends before they read or write any
  of it: the end is a 64-bit sum, which is compared with the capacity (`bounded`).  So a range is
  refused if it ends past the capacity, and used otherwise, up to the last 64-bit number.  A range
  that ends past that is not refused: the sum runs over, and the machine stops.

  * `bounds_checked`: so it is at every place and for every length;
  * `bounds_overrun`: one byte of memory, and one of a file, that stop the machine.
-/
import DemandPaging.Proofs.Files
import DemandPaging.Proofs.Memory

namespace DemandPaging

variable {ε α β σ : Type} {capacity start len offset : Nat} {refusal : ε}

/-- What a use of a range comes to is settled by where the range ends. -/
structure BoundsChecked (capacity start len : Nat) (refusal : ε)
    (outcome : Checked (Except ε α)) : Prop where
  /-- It is refused if the end is a 64-bit number past the capacity. -/
  refuses : outcome = .ok (.error refusal) ↔ capacity < start + len ∧ start + len < limit64
  /-- It is not refused if the end is within the capacity. -/
  accepts : (∃ r, outcome = .ok r ∧ r ≠ .error refusal) ↔ start + len ≤ capacity
  /-- It stops the machine if the end is no 64-bit number. -/
  stops : outcome = .error .overflow ↔ limit64 ≤ start + len

section Bounded

variable {refused used : Checked β}

theorem map_bounded {f : β → α} :
    f <$> bounded capacity start len refused used =
      bounded capacity start len (f <$> refused) (f <$> used) := by
  unfold bounded
  split
  · split <;> rfl
  · rfl

/-- A use of ranges that are checked so is settled by where the range ends. -/
theorem BoundsChecked.of_bounded {used : Checked (Except ε α)} (hcap : capacity < limit64)
    (hused : start + len ≤ capacity → ∃ r, used = .ok r ∧ r ≠ .error refusal) :
    BoundsChecked capacity start len refusal
      (bounded capacity start len (.ok (.error refusal)) used) := by
  rcases Nat.lt_or_ge (start + len) limit64 with hlt | hover
  · rcases Nat.lt_or_ge capacity (start + len) with hpast | hwithin
    · rw [bounded_past hpast hlt]
      refine ⟨⟨fun _ => ⟨hpast, hlt⟩, fun _ => rfl⟩, ⟨?_, fun h => ?_⟩, ⟨nofun, fun h => ?_⟩⟩
      · rintro ⟨r, hr, hne⟩
        exact absurd (Except.ok.inj hr).symm hne
      · omega
      · omega
    · obtain ⟨r, rfl, hne⟩ := hused hwithin
      rw [bounded_within hcap hwithin]
      refine ⟨⟨fun h => absurd (Except.ok.inj h) hne, fun h => ?_⟩,
        ⟨fun _ => hwithin, fun _ => ⟨r, rfl, hne⟩⟩, ⟨nofun, fun h => ?_⟩⟩
      · omega
      · omega
  · rw [bounded_over hover]
    refine ⟨⟨nofun, fun h => ?_⟩, ⟨?_, fun h => ?_⟩, ⟨fun _ => hover, fun _ => rfl⟩⟩
    · omega
    · rintro ⟨r, hr, -⟩
      cases hr
    · omega

end Bounded

/-! ## Main memory -/

namespace PhysicalMemory

variable {mem : PhysicalMemory} {address : Nat}

/-- What follows the check is done within the capacity only. -/
theorem run_checkRange_bind {use : Unit → Attempt MemoryError α} :
    (mem.checkRange address len >>= use).run =
      bounded mem.capacity address len (.ok (.error .overCapacity)) (use ()).run := by
  rw [ExceptT.run_bind, run_checkRange]
  unfold bounded
  split
  · split <;> rfl
  · rfl

/-- What is done with a range after its check, and is done within the capacity. -/
theorem Formed.checked (h : mem.Formed) {use : Unit → Attempt MemoryError α}
    (huse : address + len ≤ mem.capacity → ∃ a, (use ()).run = .ok (.ok a)) :
    BoundsChecked mem.capacity address len .overCapacity
      (mem.checkRange address len >>= use).run := by
  rw [run_checkRange_bind]
  refine .of_bounded h.capacity_lt_limit64 fun hin => ?_
  obtain ⟨a, ha⟩ := huse hin
  exact ⟨_, ha, nofun⟩

/-- All ways to use memory at an address are settled by where the range ends. -/
structure BoundsAt (mem : PhysicalMemory) (address : Nat) : Prop where
  check : ∀ len, BoundsChecked mem.capacity address len .overCapacity
    (mem.checkRange address len).run
  readByte : BoundsChecked mem.capacity address 1 .overCapacity (mem.readByte address).run
  writeByte : ∀ b, BoundsChecked mem.capacity address 1 .overCapacity (mem.writeByte address b).run
  readWord : BoundsChecked mem.capacity address Bytes.wordSize .overCapacity
    (mem.readWord address).run
  writeWord : ∀ w, BoundsChecked mem.capacity address Bytes.wordSize .overCapacity
    (mem.writeWord address w).run
  read : ∀ len, BoundsChecked mem.capacity address len .overCapacity (mem.read address len).run
  write : ∀ src, BoundsChecked mem.capacity address src.length .overCapacity
    (mem.write address src).run

theorem Formed.boundsAt (h : mem.Formed) : mem.BoundsAt address := by
  have hread : ∀ {len}, address + len ≤ mem.capacity → mem.bytes.readRange address len =
      .ok (Bytes.slice mem.bytes.toList address len) := fun hin =>
    Block.readRange_eq_ok (by rw [h.length]; exact hin)
  have hwrite : ∀ src : Bytes, BoundsChecked mem.capacity address src.length .overCapacity
      (mem.write address src).run := by
    intro src
    refine h.checked fun hin => ?_
    rw [Block.writeRange_eq_ok (by rw [h.length]; exact hin)]
    exact ⟨_, rfl⟩
  constructor
  case check =>
    intro len
    rw [run_checkRange]
    exact .of_bounded h.capacity_lt_limit64 fun _ => ⟨_, rfl, nofun⟩
  case readByte =>
    refine h.checked fun hin => ?_
    rw [Block.get?_eq, List.getElem?_eq_getElem (by rw [h.length]; omega)]
    exact ⟨_, rfl⟩
  case writeByte => exact fun b => hwrite [b]
  case readWord =>
    unfold readWord read
    rw [bind_assoc]
    refine h.checked fun hin => ?_
    rw [hread hin]
    exact ⟨_, rfl⟩
  case writeWord => exact fun w => hwrite (Bytes.ofWord w)
  case read =>
    intro len
    refine h.checked fun hin => ?_
    rw [hread hin]
    exact ⟨_, rfl⟩
  case write => exact hwrite

end PhysicalMemory

/-! ## Files -/

namespace SwapFile

variable {file : SwapFile} {files : HostFiles}

theorem run_checkRange (hcap : file.capacity = some capacity) :
    (file.checkRange offset len).run =
      bounded capacity offset len (.ok (.error .overCapacity)) (.ok (.ok ())) := by
  unfold checkRange addBelow bounded
  rw [hcap]
  by_cases hlt : offset + len < limit64
  · simp only [if_pos hlt]
    change ExceptT.run (if capacity < offset + len then throw StoreError.overCapacity
      else pure ()) = _
    split <;> rfl
  · simp only [if_neg hlt]
    rfl

/-- What follows the check is done within the capacity only. -/
theorem run_checkRange_bind {use : Unit → Action HostFiles StoreError α}
    (hcap : file.capacity = some capacity) :
    (Action.ofAttempt id (file.checkRange offset len) >>= use).run.run files =
      bounded capacity offset len (.ok (.error .overCapacity, files)) ((use ()).run.run files) := by
  rw [ExceptT.run_bind, StateT.run_bind, run_ofAttempt, run_checkRange hcap]
  unfold bounded
  split
  · split <;> rfl
  · rfl

/-- What is done with a range after its check, and fails for other reasons only. -/
theorem checked {use : Unit → Action HostFiles StoreError α} (hcap : file.capacity = some capacity)
    (hlt : capacity < limit64) (huse : Ends (fun _ => False) (use ()).run files fun r _ =>
      r ≠ .error .overCapacity) :
    BoundsChecked capacity offset len .overCapacity
      (Prod.fst <$> (Action.ofAttempt id (file.checkRange offset len) >>= use).run.run files) := by
  obtain ⟨r, files', hrun, hne⟩ := ends_iff_eq_ok.1 huse
  rw [run_checkRange_bind hcap, map_bounded, hrun]
  exact .of_bounded hlt fun _ => ⟨r, rfl, hne⟩

/-- Both ways to use a file with a capacity are settled by where the range ends. -/
structure BoundsAt (file : SwapFile) (capacity : Nat) (files : HostFiles) (offset : Nat) : Prop where
  read : ∀ len, BoundsChecked capacity offset len .overCapacity
    (Prod.fst <$> (file.read offset len).run.run files)
  write : ∀ src, BoundsChecked capacity offset src.length .overCapacity
    (Prod.fst <$> (file.write offset src).run.run files)

theorem boundsAt (hcap : file.capacity = some capacity) (hlt : capacity < limit64) :
    file.BoundsAt capacity files offset := by
  have hhost : ∀ {α : Type} {e : IoError},
      (Except.error (.io e) : Except StoreError α) ≠ .error .overCapacity := by
    intro α e h
    cases h
  have hdone : ∀ {α : Type} {a : α}, (Except.ok a : Except StoreError α) ≠ .error .overCapacity := by
    intro α a h
    cases h
  constructor
  case read =>
    intro len
    refine checked hcap hlt ?_
    unfold checkAddressable
    simp only [ends_bind, ends_ofAttempt, ends_get, ends_ite, ends_throw, ends_pure]
    split
    · exact hhost
    · exact ⟨fun _ => hhost, fun _ => hdone⟩
  case write =>
    intro src
    refine checked hcap hlt ?_
    unfold checkAddressable
    simp only [ends_bind, ends_ofAttempt]
    split
    · exact hhost
    · split
      · exact hdone
      · exact hdone

end SwapFile

/-! ## Both -/

/-- Uses of memory, and of files with a capacity, are settled by where the range ends, at every
    place and for every length. -/
theorem bounds_checked {mem : PhysicalMemory} {file : SwapFile} {capacity : Nat}
    (hmem : mem.Formed) (hcap : file.capacity = some capacity) (hlt : capacity < limit64)
    (address offset : Nat) (files : HostFiles) :
    mem.BoundsAt address ∧ file.BoundsAt capacity files offset :=
  ⟨hmem.boundsAt, SwapFile.boundsAt hcap hlt⟩

/-- A file of a thousand and twenty-four bytes at most, in a directory of its own. -/
theorem exists_swap_file : ∃ (file : SwapFile) (files : HostFiles),
    (SwapFile.create "swap" (some 1024)).run.run {} = .ok (.ok file, files) ∧
      file.capacity = some 1024 := by
  have hpath : HostFiles.pathError? {} (SwapFile.makeName "swap") = none :=
    HostFiles.pathError?_of_plain (by decide +kernel) (by decide +kernel) (by decide +kernel)
  exact ⟨_, _, by rw [SwapFile.run_create, HostFiles.create_new hpath rfl], rfl⟩

/-- The last byte of memory is there, the last one whose end is a 64-bit number is refused, and so
    is an empty write to a file one past its capacity. -/
theorem bounds_checked_at_the_ends : ∃ (mem : PhysicalMemory) (file : SwapFile) (files : HostFiles),
    PhysicalMemory.create 4 2 = .ok mem ∧ mem.Formed ∧
      (SwapFile.create "swap" (some 1024)).run.run {} = .ok (.ok file, files) ∧
      file.capacity = some 1024 ∧ 1024 < limit64 ∧
      (∃ r, (mem.readByte 7).run = .ok r ∧ r ≠ .error .overCapacity) ∧
      (mem.readByte 18446744073709551614).run = .ok (.error .overCapacity) ∧
      Prod.fst <$> (file.write 1025 []).run.run files = .ok (.error .overCapacity) := by
  obtain ⟨file, files, hcreate, hcap⟩ := exists_swap_file
  have hformed : PhysicalMemory.Formed ⟨4, 2, Block.zeros (2 * 4)⟩ :=
    PhysicalMemory.formed_zeros (by decide) (by decide)
  have hlt : 1024 < limit64 := by decide
  obtain ⟨hlast, hfull⟩ := bounds_checked hformed hcap hlt 7 1025 files
  obtain ⟨hpast, -⟩ := bounds_checked hformed hcap hlt 18446744073709551614 1025 files
  exact ⟨_, file, files, rfl, hformed, hcreate, hcap, hlt, hlast.readByte.accepts.2 (by decide),
    hpast.readByte.refuses.2 (by decide), (hfull.write []).refuses.2 (by decide)⟩

/-- The byte at the last 64-bit address lies past the capacity, and is not refused. -/
theorem bounds_overrun :
    (∃ mem : PhysicalMemory, PhysicalMemory.create 512 2 = .ok mem ∧
      mem.capacity < 18446744073709551615 + 1 ∧
        (mem.checkRange 18446744073709551615 1).run = .error .overflow ∧
          (mem.readByte 18446744073709551615).run = .error .overflow) ∧
    ∃ (file : SwapFile) (files : HostFiles),
      (SwapFile.create "swap" (some 1024)).run.run {} = .ok (.ok file, files) ∧
        1024 < 18446744073709551615 + 1 ∧
          Prod.fst <$> (file.read 18446744073709551615 1).run.run files = .error .overflow := by
  obtain ⟨file, files, hcreate, hcap⟩ := exists_swap_file
  have hfile : file.BoundsAt 1024 files 18446744073709551615 := SwapFile.boundsAt hcap (by decide)
  refine ⟨⟨_, rfl, by decide, rfl, rfl⟩, ⟨file, files, hcreate, by decide, ?_⟩⟩
  exact (hfile.read 1).stops.2 (by decide)

end DemandPaging
