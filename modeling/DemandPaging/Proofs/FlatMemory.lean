/-
  Main memory is one array of bytes.

  Bytes, words, ranges and frames are views of the same array, and so are all handles to it.  What
  the array holds is told by the accesses so far (`written`): each write that lies within the
  capacity replaces bytes, and nothing else does.

  * `Formed.grant`, `Formed.refuse`: what one access does, by where its range ends;
  * `Uses.shows`: what any accesses through any handles leave is what they have written;
  * `memory_is_flat`: so every access is served as by the array.
-/
import DemandPaging.Proofs.ArrayStore
import DemandPaging.Proofs.Bounds
import Mathlib.Algebra.GroupWithZero.Nat

namespace DemandPaging

/-! ## Accesses -/

/-- An access to main memory.  Reads of ranges and of frames fill a buffer. -/
inductive MemoryAccess where
  | readByte (address : Nat)
  | writeByte (address : Nat) (b : UInt8)
  | readWord (address : Nat)
  | writeWord (address w : Nat)
  | read (address : Nat) (buffer : Bytes)
  | write (address : Nat) (src : Bytes)
  | readFrame (frame : Frame) (buffer : Bytes)
  | writeFrame (frame : Frame) (page : Bytes)
  | zeroFrame (frame : Frame)
deriving DecidableEq, Repr

/-- What an access answers, a buffer apart. -/
inductive MemoryReply where
  | done
  | byte (b : UInt8)
  | word (w : Nat)
deriving DecidableEq, Repr

/-- What comes of an access that is not refused. -/
structure Granted where
  reply : MemoryReply
  buffer : Bytes
  memory : PhysicalMemory

/-- Carries out an access. -/
def PhysicalMemory.grant (mem : PhysicalMemory) : MemoryAccess → Attempt MemoryError Granted
  | .readByte address => do return ⟨.byte (← mem.readByte address), [], mem⟩
  | .writeByte address b => do return ⟨.done, [], ← mem.writeByte address b⟩
  | .readWord address => do return ⟨.word (← mem.readWord address), [], mem⟩
  | .writeWord address w => do return ⟨.done, [], ← mem.writeWord address w⟩
  | .read address buffer => do return ⟨.done, ← mem.read address buffer.length, mem⟩
  | .write address src => do return ⟨.done, [], ← mem.write address src⟩
  | .readFrame frame buffer => do return ⟨.done, ← mem.readFrame frame buffer.length, mem⟩
  | .writeFrame frame page => do return ⟨.done, [], ← mem.writeFrame frame page⟩
  | .zeroFrame frame => do return ⟨.done, [], ← mem.zeroFrame frame⟩

namespace MemoryAccess

variable (pageSize numFrames : Nat) (content : Nat → UInt8)

/-- The frame that is accessed as a whole. -/
def frame? : MemoryAccess → Option Frame
  | readFrame frame _ | writeFrame frame _ | zeroFrame frame => some frame
  | _ => none

/-- The buffer that is handed in. -/
def buffer : MemoryAccess → Bytes
  | read _ buffer | readFrame _ buffer => buffer
  | _ => []

/-- Where the range of an access starts. -/
def start : MemoryAccess → Nat
  | readByte address | writeByte address _ | readWord address | writeWord address _ => address
  | read address _ | write address _ => address
  | readFrame frame _ | writeFrame frame _ | zeroFrame frame => frame * pageSize

/-- The number of bytes in the range of an access. -/
def len : MemoryAccess → Nat
  | readByte _ | writeByte _ _ => 1
  | readWord _ | writeWord _ _ => 4
  | read _ buffer => buffer.length
  | write _ src => src.length
  | readFrame _ _ | writeFrame _ _ | zeroFrame _ => pageSize

/-- The range ends within the capacity. -/
def Fits (access : MemoryAccess) : Prop :=
  access.start pageSize + access.len pageSize ≤ numFrames * pageSize

instance (access : MemoryAccess) : Decidable (access.Fits pageSize numFrames) :=
  inferInstanceAs (Decidable (_ ≤ _))

/-- The address of an end is a 64-bit number, and what goes to a frame or comes from it is one
    page long. -/
def Fair : MemoryAccess → Prop
  | readFrame _ buffer => buffer.length = pageSize
  | writeFrame _ page => page.length = pageSize
  | zeroFrame _ => True
  | access => access.start pageSize + access.len pageSize < limit64

/-- The bytes that a write puts into its range; a read puts none. -/
def src : MemoryAccess → Bytes
  | writeByte _ b => [b]
  | writeWord _ w => [3, 2, 1, 0].map fun i => UInt8.ofNat (w / 256 ^ i)
  | write _ src => src
  | writeFrame _ page => page
  | zeroFrame _ => Bytes.zeros pageSize
  | _ => []

/-- The answer of an array that shows `content`. -/
def reply : MemoryAccess → MemoryReply
  | readByte address => .byte (content address)
  | readWord address => .word ((content address).toNat * 256 ^ 3 +
      (content (address + 1)).toNat * 256 ^ 2 + (content (address + 2)).toNat * 256 +
        (content (address + 3)).toNat)
  | _ => .done

/-- The buffer, filled by an array that shows `content`. -/
def filled : MemoryAccess → Bytes
  | read address buffer => bytesAt content address buffer.length
  | readFrame frame _ => bytesAt content (frame * pageSize) pageSize
  | _ => []

/-- What an array of zeroes shows after some accesses, the last of which comes first. -/
def written : List MemoryAccess → Nat → UInt8
  | [] => fun _ => 0
  | access :: before =>
    if access.Fits pageSize numFrames then
      writeAt (written before) (access.start pageSize) (access.src pageSize)
    else written before

variable {pageSize numFrames content} {access : MemoryAccess} {frame : Frame}

theorem range_of_frame (hframe : access.frame? = some frame) :
    access.start pageSize = frame * pageSize ∧ access.len pageSize = pageSize := by
  cases access <;> cases hframe <;> exact ⟨rfl, rfl⟩

/-- For a frame it comes to its number. -/
theorem fits_iff_of_frame (hpos : 0 < pageSize) (hframe : access.frame? = some frame) :
    access.Fits pageSize numFrames ↔ frame < numFrames := by
  obtain ⟨hstart, hlen⟩ : _ ∧ access.len pageSize = pageSize := range_of_frame hframe
  unfold Fits
  rw [hstart, hlen, ← Nat.succ_mul]
  exact ⟨fun h => Nat.le_of_mul_le_mul_right h hpos, fun h => Nat.mul_le_mul_right _ h⟩

/-- What is written stays in the range of the access. -/
theorem length_src_le (hfair : access.Fair pageSize) :
    (access.src pageSize).length ≤ access.len pageSize := by
  cases access
  case writeFrame frame page => exact Nat.le_of_eq hfair
  all_goals simp [src, len]

end MemoryAccess

open MemoryAccess

/-! ## One access -/

namespace PhysicalMemory

variable {mem : PhysicalMemory} {content : Nat → UInt8} {access : MemoryAccess} {α : Type}

/-- Four bytes, as a word. -/
theorem word_bytesAt {address : Nat} : Bytes.word (bytesAt content address 4) =
    (content address).toNat * 256 ^ 3 + (content (address + 1)).toNat * 256 ^ 2 +
      (content (address + 2)).toNat * 256 + (content (address + 3)).toNat := by
  have hfour : bytesAt content address 4 =
      [content address, content (address + 1), content (address + 2), content (address + 3)] := rfl
  rw [hfour]
  simp only [Bytes.word, List.foldl_cons, List.foldl_nil]
  omega

theorem bigEndian_eq {w : Nat} :
    [3, 2, 1, 0].map (fun i => UInt8.ofNat (w / 256 ^ i)) = Bytes.ofWord w := by
  simp [Bytes.ofWord]

/-- The bytes of memory are those of an array. -/
def Shows (mem : PhysicalMemory) (content : Nat → UInt8) : Prop :=
  mem.bytes.toList = bytesAt content 0 mem.capacity

theorem Shows.slice {start len : Nat} (h : mem.Shows content) (hin : start + len ≤ mem.capacity) :
    Bytes.slice mem.bytes.toList start len = bytesAt content start len := by
  rw [h, slice_bytesAt hin, Nat.zero_add]

theorem Shows.getElem? {i : Nat} (h : mem.Shows content) (hin : i < mem.capacity) :
    mem.bytes.toList[i]? = some (content i) := by
  rw [h, getElem?_bytesAt, if_pos hin, Nat.zero_add]

theorem Shows.read_eq {start len : Nat} (h : mem.Formed) (hshows : mem.Shows content)
    (hin : start + len ≤ mem.capacity) :
    (mem.read start len).run = .ok (.ok (bytesAt content start len)) := by
  rw [PhysicalMemory.read_eq h hin, hshows.slice hin]

theorem Shows.readWord_eq {start : Nat} (h : mem.Formed) (hshows : mem.Shows content)
    (hin : start + 4 ≤ mem.capacity) :
    (mem.readWord start).run = .ok (.ok ((content start).toNat * 256 ^ 3 +
      (content (start + 1)).toNat * 256 ^ 2 + (content (start + 2)).toNat * 256 +
        (content (start + 3)).toNat)) := by
  rw [PhysicalMemory.readWord_eq h hin, Bytes.wordSize, hshows.slice hin, word_bytesAt]

theorem Shows.patch {start : Nat} {src : Bytes} (hformed : mem.Formed) (h : mem.Shows content)
    (hin : start + src.length ≤ mem.capacity) :
    (mem.patch start src).Shows (writeAt content start src) := by
  unfold Shows
  rw [toList_patch hformed hin, h]
  exact (bytesAt_writeAt_within (Nat.zero_le _) (by omega)).symm

/-- Memory that shows what an access leaves of an array. -/
structure Leaves (mem : PhysicalMemory) (content : Nat → UInt8) (access : MemoryAccess)
    (mem' : PhysicalMemory) : Prop where
  pageSize : mem'.pageSize = mem.pageSize
  numFrames : mem'.numFrames = mem.numFrames
  formed : mem'.Formed
  shows : mem'.Shows (writeAt content (access.start mem.pageSize) (access.src mem.pageSize))

theorem Shows.unchanged (h : mem.Formed) (hshows : mem.Shows content)
    (hsrc : access.src mem.pageSize = []) : mem.Leaves content access mem := by
  refine ⟨rfl, rfl, h, ?_⟩
  rw [hsrc, writeAt_nil]
  exact hshows

theorem Shows.changed (h : mem.Formed) (hshows : mem.Shows content)
    (hfair : access.Fair mem.pageSize) (hfits : access.Fits mem.pageSize mem.numFrames) :
    mem.Leaves content access
      (mem.patch (access.start mem.pageSize) (access.src mem.pageSize)) := by
  have hin : access.start mem.pageSize + (access.src mem.pageSize).length ≤ mem.capacity :=
    Nat.le_trans (Nat.add_le_add_left (length_src_le hfair) _) hfits
  exact ⟨rfl, rfl, h.patch hin, hshows.patch h hin⟩

theorem zeroFrame_eq {f : Frame} (h : mem.Formed) (hf : f < mem.numFrames) :
    (mem.zeroFrame f).run = .ok (.ok (mem.patch (f * mem.pageSize) (Bytes.zeros mem.pageSize))) := by
  have hin : f * mem.pageSize + (Bytes.zeros mem.pageSize).length ≤ mem.capacity := by
    rw [Bytes.length_zeros]
    exact frame_le hf
  refine Eq.trans ?_ (write_eq h hin)
  simp only [zeroFrame, checkFrame, Nat.not_le.2 hf, if_false]
  rfl

/-- An access within the capacity answers what an array answers, and leaves what that leaves. -/
theorem Formed.grant (h : mem.Formed) (hshows : mem.Shows content) (hfair : access.Fair mem.pageSize)
    (hfits : access.Fits mem.pageSize mem.numFrames) :
    ∃ mem', (mem.grant access).run =
        .ok (.ok ⟨access.reply content, access.filled mem.pageSize content, mem'⟩) ∧
      mem.Leaves content access mem' := by
  have hchanged := hshows.changed h hfair hfits
  have hframe : ∀ {f}, access.frame? = some f → f < mem.numFrames := fun hf =>
    (fits_iff_of_frame h.pageSize_pos hf).1 hfits
  cases access with
  | readByte address =>
    obtain ⟨b, hb, hrun⟩ := readByte_eq h hfits
    obtain rfl : content address = b := Option.some.inj ((hshows.getElem? hfits).symm.trans hb)
    exact ⟨_, attempt_run_bind_of_ok hrun, hshows.unchanged h rfl⟩
  | writeByte address b => exact ⟨_, attempt_run_bind_of_ok (write_eq h hfits), hchanged⟩
  | readWord address =>
    exact ⟨_, attempt_run_bind_of_ok (hshows.readWord_eq h hfits), hshows.unchanged h rfl⟩
  | writeWord address w =>
    refine ⟨_, attempt_run_bind_of_ok (write_eq h hfits), ?_⟩
    rw [← bigEndian_eq]
    exact hchanged
  | read address buffer =>
    exact ⟨_, attempt_run_bind_of_ok (hshows.read_eq h hfits), hshows.unchanged h rfl⟩
  | write address src => exact ⟨_, attempt_run_bind_of_ok (write_eq h hfits), hchanged⟩
  | readFrame f buffer =>
    have hbuffer : buffer.length = mem.pageSize := hfair
    have hrun := readFrame_eq h (hframe rfl)
    rw [← hbuffer, frameBytes, hshows.slice (frame_le (hframe rfl))] at hrun
    exact ⟨_, attempt_run_bind_of_ok hrun, hshows.unchanged h rfl⟩
  | writeFrame f page =>
    exact ⟨_, attempt_run_bind_of_ok (writeFrame_eq h (hframe rfl) hfair), hchanged⟩
  | zeroFrame f => exact ⟨_, attempt_run_bind_of_ok (zeroFrame_eq h (hframe rfl)), hchanged⟩

theorem checkFrame_eq {f : Frame} (hf : mem.numFrames ≤ f) :
    (mem.checkFrame f).run = .ok (.error .overCapacity) := by
  rw [checkFrame, if_pos hf]
  rfl

/-- An access that ends past the capacity is refused. -/
theorem Formed.refuse (h : mem.Formed) (hfair : access.Fair mem.pageSize)
    (hfits : ¬ access.Fits mem.pageSize mem.numFrames) :
    (mem.grant access).run = .ok (.error .overCapacity) := by
  have hframe : ∀ {f}, access.frame? = some f → mem.numFrames ≤ f := fun hf =>
    Nat.not_lt.1 fun hlt => hfits ((fits_iff_of_frame h.pageSize_pos hf).2 hlt)
  have hpast : mem.capacity < access.start mem.pageSize + access.len mem.pageSize :=
    Nat.not_le.1 hfits
  cases access with
  | readByte address => exact attempt_run_bind_of_error (h.boundsAt.readByte.refuses.2 ⟨hpast, hfair⟩)
  | writeByte address b =>
    exact attempt_run_bind_of_error ((h.boundsAt.writeByte b).refuses.2 ⟨hpast, hfair⟩)
  | readWord address => exact attempt_run_bind_of_error (h.boundsAt.readWord.refuses.2 ⟨hpast, hfair⟩)
  | writeWord address w =>
    exact attempt_run_bind_of_error ((h.boundsAt.writeWord w).refuses.2 ⟨hpast, hfair⟩)
  | read address buffer =>
    exact attempt_run_bind_of_error ((h.boundsAt.read _).refuses.2 ⟨hpast, hfair⟩)
  | write address src =>
    exact attempt_run_bind_of_error ((h.boundsAt.write src).refuses.2 ⟨hpast, hfair⟩)
  | readFrame f buffer =>
    have hbuffer : buffer.length = mem.pageSize := hfair
    have hrun : (mem.readFrame f buffer.length).run = .ok (.error .overCapacity) := by
      simp only [readFrame, Checked.require, hbuffer, decide_true, if_true]
      exact (attempt_run_bind_of_ok rfl).trans
        (attempt_run_bind_of_error (checkFrame_eq (hframe rfl)))
    exact attempt_run_bind_of_error hrun
  | writeFrame f page =>
    have hpage : page.length = mem.pageSize := hfair
    have hrun : (mem.writeFrame f page).run = .ok (.error .overCapacity) := by
      simp only [writeFrame, Checked.require, hpage, decide_true, if_true]
      exact (attempt_run_bind_of_ok rfl).trans
        (attempt_run_bind_of_error (checkFrame_eq (hframe rfl)))
    exact attempt_run_bind_of_error hrun
  | zeroFrame f =>
    have hrun : (mem.zeroFrame f).run = .ok (.error .overCapacity) :=
      attempt_run_bind_of_error (checkFrame_eq (hframe rfl))
    exact attempt_run_bind_of_error hrun

end PhysicalMemory

/-! ## Handles -/

/-- Main memory and the handles to it, each of which knows the number of frames. -/
structure SharedMemory where
  pageSize : Nat
  bytes : Block
  handles : List Nat

namespace SharedMemory

/-- Memory of zeroes, with one handle. -/
def create (pageSize numFrames : Nat) : Checked SharedMemory := do
  let mem ← PhysicalMemory.create pageSize numFrames
  return ⟨mem.pageSize, mem.bytes, [mem.numFrames]⟩

/-- Memory as a handle has it. -/
def view? (m : SharedMemory) (h : Nat) : Option PhysicalMemory :=
  m.handles[h]?.map fun numFrames => ⟨m.pageSize, numFrames, m.bytes⟩

/-- Hands out another handle. -/
def clone (m : SharedMemory) (h : Nat) : SharedMemory :=
  { m with handles := m.handles ++ m.handles[h]?.toList }

/-- Carries out an access through a handle.  Answers also the buffer, which an access that is
    refused leaves as it is. -/
def access (m : SharedMemory) (h : Nat) (access : MemoryAccess) :
    Checked ((Except MemoryError MemoryReply × Bytes) × SharedMemory) :=
  match m.view? h with
  | none => Violation.index.stop
  | some mem => do
    match ← (mem.grant access).run with
    | .ok granted => return ((.ok granted.reply, granted.buffer), { m with bytes := granted.memory.bytes })
    | .error e => return ((.error e, access.buffer), m)

variable {pageSize numFrames h : Nat} {content : Nat → UInt8} {m m' : SharedMemory}
  {a : MemoryAccess}

/-- Every handle has the same frames, and the bytes are those of an array. -/
structure Shows (pageSize numFrames : Nat) (content : Nat → UInt8) (m : SharedMemory) : Prop where
  sized : m.pageSize = pageSize
  handles : ∀ frames ∈ m.handles, frames = numFrames
  formed : PhysicalMemory.Formed ⟨pageSize, numFrames, m.bytes⟩
  bytes : m.bytes.toList = bytesAt content 0 (numFrames * pageSize)

theorem Shows.view?_eq (hm : m.Shows pageSize numFrames content) (hh : h < m.handles.length) :
    m.view? h = some ⟨pageSize, numFrames, m.bytes⟩ := by
  unfold view?
  rw [List.getElem?_eq_getElem hh, Option.map_some, hm.handles _ (List.getElem_mem hh), hm.sized]

theorem Shows.clone (hm : m.Shows pageSize numFrames content) :
    (m.clone h).Shows pageSize numFrames content := by
  refine ⟨hm.sized, fun frames hmem => ?_, hm.formed, hm.bytes⟩
  rcases List.mem_append.1 hmem with hold | hnew
  · exact hm.handles frames hold
  · exact hm.handles frames (List.mem_of_getElem? (Option.mem_toList.1 hnew))

/-- An access within the capacity, through any handle. -/
theorem Shows.access_fits (hm : m.Shows pageSize numFrames content) (hh : h < m.handles.length)
    (hfair : a.Fair pageSize) (hfits : a.Fits pageSize numFrames) :
    ∃ m', m.access h a = .ok ((.ok (a.reply content), a.filled pageSize content), m') ∧
      m'.Shows pageSize numFrames (writeAt content (a.start pageSize) (a.src pageSize)) ∧
        m'.handles = m.handles := by
  have hshows : PhysicalMemory.Shows ⟨pageSize, numFrames, m.bytes⟩ content := hm.bytes
  obtain ⟨⟨_, _, bytes⟩, hrun, rfl, rfl, hformed, hbytes⟩ := hm.formed.grant hshows hfair hfits
  refine ⟨{ m with bytes }, ?_, ⟨hm.sized, hm.handles, hformed, hbytes⟩, rfl⟩
  unfold SharedMemory.access
  rw [hm.view?_eq hh]
  dsimp only
  rw [hrun]
  rfl

/-- An access that ends past the capacity, through any handle. -/
theorem Shows.access_refused (hm : m.Shows pageSize numFrames content) (hh : h < m.handles.length)
    (hfair : a.Fair pageSize) (hfits : ¬ a.Fits pageSize numFrames) :
    m.access h a = .ok ((.error .overCapacity, a.buffer), m) := by
  unfold SharedMemory.access
  rw [hm.view?_eq hh]
  dsimp only
  rw [hm.formed.refuse hfair hfits]
  rfl

/-! ## Any accesses -/

/-- The accesses that took a memory from one state to another, the last of which comes first. -/
inductive Uses (start : SharedMemory) : List MemoryAccess → SharedMemory → Prop where
  | start : Uses start [] start
  | clone {before m} (h : Nat) (hm : Uses start before m) : Uses start before (m.clone h)
  | access {before m h access answer m'} (hm : Uses start before m)
      (hfair : access.Fair m.pageSize) (hrun : m.access h access = .ok (answer, m')) :
      Uses start (access :: before) m'

/-- An access is served as by an array of zeroes after those before. -/
structure Served (pageSize numFrames : Nat) (before : List MemoryAccess) (m : SharedMemory)
    (access : MemoryAccess) (result : Except MemoryError MemoryReply) (buffer : Bytes)
    (m' : SharedMemory) : Prop where
  /-- It succeeds if it ends within the capacity. -/
  succeeds : (∃ reply, result = .ok reply) ↔
    access.start pageSize + access.len pageSize ≤ numFrames * pageSize
  succeeds_frame : ∀ frame, access.frame? = some frame →
    ((∃ reply, result = .ok reply) ↔ frame < numFrames)
  /-- It answers what was written last. -/
  answers : ∀ reply, result = .ok reply → reply = access.reply (written pageSize numFrames before) ∧
    buffer = access.filled pageSize (written pageSize numFrames before)
  /-- If it is refused, nothing changes. -/
  refused : ∀ e, result = .error e → e = .overCapacity ∧ buffer = access.buffer ∧ m' = m
  array : m'.bytes.toList =
    bytesAt (written pageSize numFrames (access :: before)) 0 (numFrames * pageSize)
  /-- Other frames than the one accessed keep their bytes. -/
  others : ∀ frame other, access.frame? = some frame → other ≠ frame →
    Bytes.slice m'.bytes.toList (other * pageSize) pageSize =
      Bytes.slice m.bytes.toList (other * pageSize) pageSize
  handles : m'.handles = m.handles

theorem written_of_fits {before : List MemoryAccess} (hfits : a.Fits pageSize numFrames) :
    written pageSize numFrames (a :: before) =
      writeAt (written pageSize numFrames before) (a.start pageSize) (a.src pageSize) := if_pos hfits

theorem written_of_not_fits {before : List MemoryAccess} (hfits : ¬ a.Fits pageSize numFrames) :
    written pageSize numFrames (a :: before) = written pageSize numFrames before := if_neg hfits

/-- What any accesses through any handles leave is what they have written. -/
theorem Uses.shows {start : SharedMemory} {before : List MemoryAccess}
    (hstart : start.Shows pageSize numFrames fun _ => 0) (h : Uses start before m) :
    m.Shows pageSize numFrames (written pageSize numFrames before) := by
  induction h with
  | start => exact hstart
  | clone _ _ ih => exact ih.clone
  | @access before m h access answer m' _ hfair hrun ih =>
    have hh : h < m.handles.length := by
      refine Nat.lt_of_not_le fun hnone => ?_
      rw [SharedMemory.access, view?, List.getElem?_eq_none hnone] at hrun
      cases hrun
    rw [ih.sized] at hfair
    by_cases hfits : access.Fits pageSize numFrames
    · obtain ⟨_, haccess, hm', -⟩ := ih.access_fits hh hfair hfits
      cases hrun.symm.trans haccess
      rw [written_of_fits hfits]
      exact hm'
    · cases hrun.symm.trans (ih.access_refused hh hfair hfits)
      rw [written_of_not_fits hfits]
      exact ih

/-- The frame that is accessed keeps to itself. -/
theorem slice_writeAt_other {frame other : Nat} (hm : m.Shows pageSize numFrames content)
    (hm' : m'.Shows pageSize numFrames (writeAt content (a.start pageSize) (a.src pageSize)))
    (hfair : a.Fair pageSize) (hframe : a.frame? = some frame) (hne : other ≠ frame) :
    Bytes.slice m'.bytes.toList (other * pageSize) pageSize =
      Bytes.slice m.bytes.toList (other * pageSize) pageSize := by
  rw [hm.bytes, hm'.bytes]
  refine Bytes.slice_congr fun i hi => ?_
  rw [getElem?_bytesAt, getElem?_bytesAt, Nat.zero_add]
  obtain ⟨hstart, hpage⟩ : _ ∧ a.len pageSize = pageSize := range_of_frame hframe
  have hsrc : (a.src pageSize).length ≤ a.len pageSize := length_src_le hfair
  have hapart : other * pageSize + pageSize ≤ frame * pageSize ∨
      frame * pageSize + pageSize ≤ other * pageSize := Bytes.unit_apart hne
  rw [writeAt_of_apart (by omega)]

/-- Whatever the accesses before, the next one is served. -/
theorem Shows.serve {before : List MemoryAccess}
    (hm : m.Shows pageSize numFrames (written pageSize numFrames before))
    (hh : h < m.handles.length) (hfair : a.Fair pageSize) :
    ∃ result buffer m', m.access h a = .ok ((result, buffer), m') ∧
      Served pageSize numFrames before m a result buffer m' := by
  have hpos : 0 < pageSize := hm.formed.pageSize_pos
  by_cases hfits : a.Fits pageSize numFrames
  · obtain ⟨m', haccess, hm', hhandles⟩ := hm.access_fits hh hfair hfits
    refine ⟨_, _, m', haccess, ?_⟩
    constructor
    case succeeds => exact ⟨fun _ => hfits, fun _ => ⟨_, rfl⟩⟩
    case succeeds_frame =>
      intro frame hframe
      exact ⟨fun _ => (fits_iff_of_frame hpos hframe).1 hfits, fun _ => ⟨_, rfl⟩⟩
    case answers =>
      rintro _ ⟨⟩
      exact ⟨rfl, rfl⟩
    case refused => exact nofun
    case array =>
      rw [written_of_fits hfits]
      exact hm'.bytes
    case others => exact fun frame other hframe hne => slice_writeAt_other hm hm' hfair hframe hne
    case handles => exact hhandles
  · refine ⟨_, _, m, hm.access_refused hh hfair hfits, ?_⟩
    constructor
    case succeeds => exact ⟨nofun, fun hin => absurd hin hfits⟩
    case succeeds_frame =>
      intro frame hframe
      exact ⟨nofun, fun hin => absurd ((fits_iff_of_frame hpos hframe).2 hin) hfits⟩
    case answers => exact nofun
    case refused =>
      rintro _ ⟨⟩
      exact ⟨rfl, rfl, rfl⟩
    case array =>
      rw [written_of_not_fits hfits]
      exact hm.bytes
    case others => exact fun _ _ _ _ => rfl
    case handles => rfl

end SharedMemory

open SharedMemory

/-- Memory made of pages of `2 ^ n` bytes is one array of zeroes to begin with.  Whatever was
    done to it through any handles, it holds what was written last, and serves the next access
    as that array does. -/
theorem memory_is_flat {n numFrames : Nat} (hframes : 0 < numFrames) :
    Checked.Ends (fun _ => limit63 ≤ numFrames * 2 ^ n) (SharedMemory.create (2 ^ n) numFrames)
      fun start => ∀ before m, Uses start before m →
        m.bytes.toList = bytesAt (written (2 ^ n) numFrames before) 0 (numFrames * 2 ^ n) ∧
          ∀ h < m.handles.length, ∀ access : MemoryAccess, access.Fair (2 ^ n) →
            ∃ result buffer m', m.access h access = .ok ((result, buffer), m') ∧
              Served (2 ^ n) numFrames before m access result buffer m' := by
  have hpower : Nat.pow 2 (2 ^ n).log2 = 2 ^ n := congrArg (Nat.pow 2) Nat.log2_two_pow
  unfold SharedMemory.create
  rw [Checked.ends_bind]
  refine (PhysicalMemory.ends_create_zeros hpower hframes).imp ?_
  rintro _ ⟨rfl, hroom⟩
  rw [Checked.ends_pure]
  intro before m huses
  have hstart : SharedMemory.Shows (2 ^ n) numFrames (fun _ => 0)
      ⟨2 ^ n, Block.zeros (numFrames * 2 ^ n), [numFrames]⟩ := by
    refine ⟨rfl, ?_, PhysicalMemory.formed_zeros (Nat.two_pow_pos n) hroom, ?_⟩
    · simp
    · simp [bytesAt, Bytes.zeros, List.map_const']
  have hm := huses.shows hstart
  exact ⟨hm.bytes, fun h hh access hfair => hm.serve hh hfair⟩

/-- A word that is written across two frames through another handle shows in the second frame,
    and in the byte view of the first one; the byte after the last one is refused. -/
theorem memory_is_flat_across_frames : ∃ start m : SharedMemory, 0 < 2 ∧
    SharedMemory.create (2 ^ 2) 2 = .ok start ∧
    Uses start [.writeWord 2 0x01020304] m ∧ m.handles = [2, 2] ∧
    (∃ m', m.access 0 (.readFrame 1 [9, 9, 9, 9]) = .ok ((.ok .done, [3, 4, 0, 0]), m')) ∧
    (∃ m', m.access 0 (.readByte 3) = .ok ((.ok (.byte 2), []), m')) ∧
    m.access 1 (.readByte 8) = .ok ((.error .overCapacity, []), m) := by
  let start : SharedMemory := ⟨4, Block.zeros 8, [2]⟩
  have hcreate : SharedMemory.create (2 ^ 2) 2 = .ok start := rfl
  have hflat := (Checked.ends_of_eq_ok hcreate).1 (memory_is_flat (by decide))
  have hclone : Uses start [] (start.clone 0) := .clone 0 .start
  obtain ⟨_, _, m, hwrite, hwritten⟩ := (hflat _ _ hclone).2 1 (by decide) (.writeWord 2 0x01020304)
    (show 2 + 4 < limit64 by decide)
  have huses : Uses start [.writeWord 2 0x01020304] m :=
    .access hclone (show 2 + 4 < limit64 by decide) hwrite
  have hhandles : m.handles = [2, 2] := hwritten.handles
  obtain ⟨-, hserve⟩ := hflat _ _ huses
  rw [hhandles] at hserve
  obtain ⟨frame, _, m₁, hframe, hframe'⟩ :=
    hserve 0 (by decide) (.readFrame 1 [9, 9, 9, 9]) rfl
  obtain ⟨byte, _, m₂, hbyte, hbyte'⟩ :=
    hserve 0 (by decide) (.readByte 3) (show 3 + 1 < limit64 by decide)
  obtain ⟨past, _, m₃, hpast, hpast'⟩ :=
    hserve 1 (by decide) (.readByte 8) (show 8 + 1 < limit64 by decide)
  refine ⟨start, m, by decide, hcreate, huses, hhandles, ⟨m₁, ?_⟩, ⟨m₂, ?_⟩, ?_⟩
  · obtain ⟨reply, rfl⟩ := hframe'.succeeds.2 (by decide)
    obtain ⟨rfl, rfl⟩ := hframe'.answers _ rfl
    exact hframe
  · obtain ⟨reply, rfl⟩ := hbyte'.succeeds.2 (by decide)
    obtain ⟨rfl, rfl⟩ := hbyte'.answers _ rfl
    exact hbyte
  · cases past with
    | ok reply => exact absurd (hpast'.succeeds.1 ⟨reply, rfl⟩) (by decide)
    | error e =>
      obtain ⟨rfl, rfl, rfl⟩ := hpast'.refused e rfl
      exact hpast

end DemandPaging
