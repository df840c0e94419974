/-
  Paging is transparent.

  Give every process a memory of its own: the data of its sections, padded to whole pages, and
  the zeroes of its stack.  What a request of the process writes changes this memory
  (`Kernel.spacesBy`), and nothing else does.  Then every request returns, and what is read is
  what this memory holds (`Kernel.Right`), however the pages have moved between frames, slots and
  images, and whatever errors the store has answered.

  * `Shown`: the kernel shows each process its memory;
  * `Shown.spawn`, `Shown.serve`: a request keeps it so;
  * `boot_transparent`: and so does every run of a kernel that has been started.
-/
import DemandPaging.Proofs.Contents
import DemandPaging.Proofs.Unstopped

namespace DemandPaging

/-- A memory for each process. -/
abbrev Spaces := Pid → Bytes

/-- The memory of process `pid` is `bytes`. -/
def Spaces.set (spaces : Spaces) (pid : Pid) (bytes : Bytes) : Spaces :=
  fun q => if q = pid then bytes else spaces q

/-- The sizes of a machine that can be built. -/
structure Config.Buildable (config : Config) (pageSize : Nat) : Prop where
  pageSize : ∃ n, 2 ≤ n ∧ n ≤ 31 ∧ pageSize = 2 ^ n
  frames : 0 < config.physPages
  frames_lt : config.physPages < limit32
  slots : 0 < config.tlbSize
  slots_lt : config.tlbSize * Mapping.recordSize < limit63

namespace Kernel

variable {σ : Type} {content : σ → Nat → UInt8} {c : Conduct σ} {pins : Frame → Nat}
  {V : Violation → Prop} {k k' : Kernel σ} {pid q : Pid} {stored : Stored} {spaces : Spaces}
  {sections : List SectionId} {exe : Executable} {bytes : Bytes} {pieces : List Bytes}
  {vaddr len : Nat} {o o' : Process.Outline} {log : List Access}

/-! ## Memories -/

/-- The memory of a new process: its image and its stack. -/
def newSpace (k : Kernel σ) (sections : List SectionId) : Bytes :=
  Executable.bytes ((sections.mapM (k.sections[·]?)).getD []) ++
    Bytes.zeros (k.config.stackPages * k.pageSize)

section Spec

variable [BackingStore σ]

/-- The memories once a request has been answered. -/
def spacesBy (k : Kernel σ) (spaces : Spaces) :
    Request → (reply : Except PagingError Reply) → Spaces
  | .spawn sections, .ok (.spawned pid _) => spaces.set pid (k.newSpace sections)
  | .spawn _, _ => spaces
  | .process pid request, reply =>
    match k.written pid request reply with
    | some (vaddr, bytes) => spaces.set pid (Bytes.overwrite (spaces pid) vaddr bytes)
    | none => spaces

/-- The answer to a request of process `pid` agrees with the memory `space` of the process. -/
def RightFor (k : Kernel σ) (pid : Pid) (space : Bytes) :
    ProcessRequest → (reply : Except PagingError Reply) → Prop
  | .loadByte vaddr, .ok (.byte b) => space[vaddr.toNat]? = some b
  | .loadWord vaddr, .ok (.word w) => vaddr.toNat + Bytes.wordSize ≤ space.length ∧
      w = Bytes.word (Bytes.slice space vaddr.toNat Bytes.wordSize)
  | .readBytes vaddr buffer, .ok (.filled n filled) => n ≤ buffer.length ∧
      (n = 0 ∨ vaddr.toNat + n ≤ space.length) ∧
      filled = Bytes.overwrite buffer 0 (Bytes.slice space vaddr.toNat n)
  -- a copy that fails has copied whole pages, from the first on
  | .writeBytes vaddr data, .error _ =>
    k.progress pid vaddr.toNat data = 0 ∨ k.pageSize ∣ vaddr.toNat + k.progress pid vaddr.toNat data
  | _, _ => True

/-- The answer to a request agrees with the memories of the processes. -/
def Right (k : Kernel σ) (spaces : Spaces) :
    Request → (reply : Except PagingError Reply) → Prop
  | .spawn sections, .ok (.spawned pid numPages) =>
    k.residency.process? pid = none ∧ (k.newSpace sections).length = numPages * k.pageSize
  | .spawn _, _ => True
  | .process pid request, reply =>
    k.RightFor pid (spaces pid) request reply ∧
      ∀ q, (k.spacesBy spaces (.process pid request) reply q).length = (spaces q).length

/-- The requests are answered one after another, and as the memories demand. -/
inductive Transparent : Spaces → Kernel σ → List Request → Prop where
  | done {spaces : Spaces} {k : Kernel σ} : Transparent spaces k []
  | answered {spaces : Spaces} {k k' : Kernel σ} {request : Request}
    {reply : Except PagingError Reply} {rest : List Request}
    (hrun : (perform request).run.run k = .ok (reply, k')) (hright : k.Right spaces request reply)
    (hrest : Transparent (k.spacesBy spaces request reply) k' rest) :
    Transparent spaces k (request :: rest)

end Spec

/-! ## The memory that a process is shown -/

/-- The size of the address space of a process. -/
def extent (k : Kernel σ) (pid : Pid) : Nat :=
  (((k.program? pid).getD []).pages + k.config.stackPages) * k.memory.pageSize

/-- What process `pid` sees in its address space. -/
def space (k : Kernel σ) (stored : Stored) (pid : Pid) : Bytes :=
  bytesAt (k.view stored pid) 0 (k.extent pid)

@[simp] theorem length_space : (k.space stored pid).length = k.extent pid := length_bytesAt

theorem space_congr (hsame : k.SameMachine k') (h : k'.program? q = k.program? q) :
    k'.space stored q = k.space stored q := by
  rw [space, space, extent, extent, view_congr h, h, hsame.config, hsame.pageSize]

theorem slice_space (hin : vaddr + len ≤ k.extent pid) :
    Bytes.slice (k.space stored pid) vaddr len = bytesAt (k.view stored pid) vaddr len := by
  rw [space, slice_bytesAt hin, Nat.zero_add]

/-- What a process writes, it is shown. -/
theorem space_put (hin : bytes = [] ∨ vaddr + bytes.length ≤ k.extent pid) :
    k.space (stored.put pid vaddr bytes) q = if q = pid then
      Bytes.overwrite (k.space stored pid) vaddr bytes else k.space stored q := by
  rcases hin with rfl | hin
  · rw [Stored.put_nil, Bytes.overwrite_nil]
    split
    · next hq => rw [hq]
    · rfl
  · rw [space, view_put]
    by_cases hq : q = pid
    · subst hq
      rw [if_pos rfl, if_pos rfl, bytesAt_writeAt_within (Nat.zero_le _) (by omega), Nat.sub_zero]
      rfl
    · rw [if_neg hq, if_neg hq]
      rfl

/-- The pages of a process are those of its image and its stack. -/
theorem Sound.extent_eq (h : k.Sound pins none) (hmem : ∀ s ∈ k.images, s.InMemory)
    (ho : k.residency.outline? pid = some o) (hfits : k.Fits pid) :
    o.readOnly.length * k.memory.pageSize = k.extent pid := by
  obtain ⟨exe, hexe, hfit⟩ := hfits
  obtain ⟨exe₁, flags, hids, -, -, hflags, -, hro, -⟩ := h.laid ho
  rw [program?, ho, Option.bind_some] at hexe
  cases hids.symm.trans hexe
  have hexemem : ∀ s ∈ exe, s.InMemory := fun s hs => hmem s (mem_of_mapM hids hs)
  rw [extent, program?, ho, Option.bind_some, hids, hro, List.length_append, List.length_replicate,
    Executable.length_flags hexemem hfit hflags]
  rfl

/-! ## Accesses -/

/-- The bytes that a process has access to lie in its address space. -/
theorem Course.in_extent {write : Bool}
    (hcourse : Course c pins k (accesses pid write vaddr pieces) k') (h : k.Sound pins none)
    (hmem : ∀ s ∈ k.images, s.InMemory) (ho : k.residency.outline? pid = some o)
    (hfits : k.Fits pid) : pieces.flatten = [] ∨ vaddr + pieces.flatten.length ≤ k.extent pid := by
  obtain ⟨p, hp, -⟩ := Option.map_eq_some_iff.1 ho
  have hpid : ∀ a ∈ accesses pid write vaddr pieces, a.pid < k.residency.nextPid := by
    intro a ha
    rw [(mem_accesses ha).1]
    exact Residency.lt_nextPid hp
  have hall : ∀ a ∈ accesses pid write vaddr pieces, a.vaddr + a.bytes.length ≤ k.extent pid := by
    intro a ha
    obtain ⟨o', ho', hle⟩ := hcourse.within hpid a ha
    rw [(mem_accesses ha).1] at ho'
    rwa [h.extent_eq hmem ho' hfits] at hle
  exact accesses_within hall

/-- The bytes that a process reads are those that it is shown. -/
theorem Course.reads_space (hcourse : Course (arrayConduct content) pins k
      (accesses pid false vaddr pieces) k') (h : k.Sound pins none)
    (hfaithful : Faithful content stored k) (hwords : Bytes.wordSize ∣ k.memory.pageSize)
    (ho : k.residency.outline? pid = some o) (hfits : k.Fits pid) :
    (pieces.flatten = [] ∨ vaddr + pieces.flatten.length ≤ (k.space stored pid).length) ∧
      pieces.flatten = Bytes.slice (k.space stored pid) vaddr pieces.flatten.length := by
  obtain ⟨p, hp, -⟩ := Option.map_eq_some_iff.1 ho
  have hin := hcourse.in_extent h hfaithful.inMemory ho hfits
  have hsaw := accesses_saw (hcourse.saw hfaithful hwords (Residency.lt_nextPid hp) hfits
    fun a ha => mem_accesses ha)
  rw [length_space]
  refine ⟨hin, ?_⟩
  rcases hin with hnil | hin
  · rw [hnil]
    rfl
  · rw [slice_space hin]
    exact hsaw

section Requests

variable [BackingStore σ]

/-- An answer is right if the bytes read are. -/
theorem Accounts.right {request : ProcessRequest} {reply : Except PagingError Reply} {space : Bytes}
    (h : k.Accounts pid request reply log)
    (hread : ∀ {vaddr pieces}, log = accesses pid false vaddr pieces →
      (pieces.flatten = [] ∨ vaddr + pieces.flatten.length ≤ space.length) ∧
        pieces.flatten = Bytes.slice space vaddr pieces.flatten.length) :
    k.RightFor pid space request reply := by
  unfold Accounts at h
  split at h
  · next vaddr b =>
    have hlog : log = accesses pid false vaddr.toNat [[b]] := h
    have hslice : [b] = Bytes.slice space vaddr.toNat 1 := (hread hlog).2
    have hfirst := congrArg (·[0]?) hslice
    simp only [Bytes.getElem?_slice] at hfirst
    exact hfirst.symm
  · next vaddr w =>
    obtain ⟨bytes, hlen, rfl, hlog⟩ := h
    have hall := hread (show log = accesses pid false vaddr.toNat [bytes] from hlog)
    rw [List.flatten_singleton, hlen] at hall
    refine ⟨hall.1.resolve_left ?_, congrArg Bytes.word hall.2⟩
    rintro rfl
    cases hlen
  · trivial
  · trivial
  · obtain ⟨pieces, hlog, rfl, hmost, rfl⟩ := h
    obtain ⟨hin, hslice⟩ := hread hlog
    refine ⟨hmost, hin.imp_left (congrArg List.length), ?_⟩
    rw [← hslice]
  · trivial
  · exact h.1
  · unfold RightFor
    split <;> grind

end Requests

/-! ## A request -/

/-- The kernel shows each process its memory. -/
structure Shown (content : σ → Nat → UInt8) (spaces : Spaces) (stored : Stored) (k : Kernel σ) :
    Prop where
  sound : k.Sound (fun _ => 0) none
  tlb : 0 < k.tlb.slots.length
  words : Bytes.wordSize ∣ k.memory.pageSize
  pageSize_lt : k.memory.pageSize < limit32
  confined : k.Confined
  faithful : Faithful content stored k
  fits : ∀ {pid o}, k.residency.outline? pid = some o → k.Fits pid
  space : ∀ {pid o}, k.residency.outline? pid = some o → spaces pid = k.space stored pid

section Requests

variable [BackingStore σ]

theorem Shown.tolerated (h : Shown content spaces stored k)
    (hc : (arrayConduct content).Holds V) : Tolerated (arrayConduct content) V k :=
  ⟨hc, fun s hs _ => (h.faithful.inMemory s hs).loads, .inl h.pageSize_lt⟩

/-- What a request writes, the memory of its process has afterwards. -/
theorem Shown.written {request : ProcessRequest} {reply : Except PagingError Reply}
    (h : Shown content spaces stored k) (hcourse : Course c (fun _ => 0) k log k')
    (haccounts : k.Accounts pid request reply log) (hp : k.residency.outline? pid = some o)
    (hq : k.residency.outline? q = some o') :
    k.spacesBy spaces (.process pid request) reply q =
      k.space (k.storedBy stored (.process pid request) reply) q := by
  have hwritten := haccounts.written
  unfold spacesBy storedBy
  dsimp only
  cases hw : k.written pid request reply with
  | none => exact h.space hq
  | some written =>
    rw [hw] at hwritten
    obtain ⟨pieces, rfl, hpieces⟩ := hwritten
    dsimp only
    have hin := hcourse.in_extent h.sound h.faithful.inMemory hp (h.fits hp)
    rw [← hpieces, space_put hin, Spaces.set, h.space hp, h.space hq]

/-- A request of a process changes the memory of no other. -/
theorem spacesBy_ne {request : ProcessRequest} {reply : Except PagingError Reply} (hq : q ≠ pid) :
    k.spacesBy spaces (.process pid request) reply q = spaces q := by
  unfold spacesBy
  dsimp only
  cases k.written pid request reply with
  | none => rfl
  | some written => exact if_neg hq

/-- A request that has been answered, has been answered right. -/
theorem Shown.answered {request : ProcessRequest} {reply : Except PagingError Reply}
    (h : Shown content spaces stored k)
    (hcourse : Course (arrayConduct content) (fun _ => 0) k log k')
    (haccounts : k.Accounts pid request reply log) (hp : k.residency.outline? pid = some o)
    (hserves : Serves (fun _ => 0) k k') (hconfined : k'.Confined) :
    k.Right spaces (.process pid request) reply ∧
      Shown content (k.spacesBy spaces (.process pid request) reply)
        (k.storedBy stored (.process pid request) reply) k' := by
  have hfor : k.AccountsFor (.process pid request) reply log := haccounts
  have hafter : stored.after log = k.storedBy stored (.process pid request) reply := hfor.after
  have hwritten : ∀ {q o}, k.residency.outline? q = some o → _ :=
    fun hq => h.written hcourse haccounts hp hq
  constructor
  · constructor
    · refine haccounts.right ?_
      rintro vaddr pieces rfl
      rw [h.space hp]
      exact hcourse.reads_space h.sound h.faithful h.words hp (h.fits hp)
    · intro q
      by_cases hq : q = pid
      · rw [hq, hwritten hp, h.space hp, length_space, length_space]
      · rw [spacesBy_ne hq]
  · have hkept : ∀ {q o'}, k'.residency.outline? q = some o' →
        (∃ o, k.residency.outline? q = some o) ∧ k'.program? q = k.program? q := by
      intro q o' ho'
      obtain ⟨o, ho, hages⟩ := hserves.outline ho'
      exact ⟨⟨o, ho⟩, program?_eq hserves.same.images ho ho' hages⟩
    have hsame := hserves.same
    refine ⟨hserves.sound, hsame.tlbSize ▸ h.tlb, hsame.pageSize ▸ h.words,
      hsame.pageSize ▸ h.pageSize_lt, hconfined, ?_, ?_, ?_⟩
    · rw [← hafter]
      exact hcourse.carries carried_faithful h.words h.faithful
    · intro q o' ho'
      obtain ⟨⟨o, ho⟩, hsame⟩ := hkept ho'
      exact (fits_congr hsame).2 (h.fits ho)
    · intro q o' ho'
      obtain ⟨⟨o, ho⟩, hsame⟩ := hkept ho'
      rw [space_congr hserves.same hsame]
      exact hwritten ho

/-- Every request of a process is answered, and answered right. -/
theorem Shown.serve {request : ProcessRequest} (h : Shown content spaces stored k)
    (hc : (arrayConduct content).Holds V) :
    Ends V (perform (.process pid request)).run k fun reply k' =>
      k.Right spaces (.process pid request) reply ∧
        Shown content (k.spacesBy spaces (.process pid request) reply)
          (k.storedBy stored (.process pid request) reply) k' ∧ k.SameMachine k' := by
  simp only [perform, ends_bind, ends_get]
  cases hp : k.residency.process? pid with
  | some p =>
    have hpin : ∀ f, (fun _ => 0 : Frame → Nat) f + 1 < limit32 ∨ V .overflow :=
      fun _ => .inl (show 1 < limit32 by decide)
    have ho := Residency.outline?_of_process hp
    have hexit : Exits V pid k := h.confined.exits h.sound
      (Nat.le_of_dvd h.sound.memory.pageSize_pos h.words)
    have hserved : Ends V (performFor pid request).run k fun _ k' => Serves (fun _ => 0) k k' :=
      ends_performFor (h.tolerated hc) h.sound h.tlb hpin fun _ => hexit
    have hconfined : Ends V (performFor pid request).run k fun _ k' => k'.Confined :=
      (hserved.imp fun _ _ _ => trivial).of_returns
        (ends_performFor_confined (c := .any σ) .any h.sound h.tlb h.confined)
    refine ((ends_performFor_course (h.tolerated hc) h.sound h.tlb hpin fun _ => hexit).and
      (hserved.and hconfined)).imp ?_
    rintro reply k' ⟨⟨log, hcourse, haccounts⟩, hserves, hconfined⟩
    obtain ⟨hright, hshown⟩ := h.answered hcourse (haccounts h.words) ho hserves hconfined
    exact ⟨hright, hshown, hserves.same⟩
  | none =>
    -- there is nobody to serve
    have hunwritten : k.written pid request
        (.ok (if request = .drop then .done else .noProcess)) = none := by
      cases request <;> simp [Kernel.written]
    have hsame : k.spacesBy spaces (.process pid request)
        (.ok (if request = .drop then .done else .noProcess)) = spaces := by
      simp only [spacesBy, hunwritten]
    refine ⟨⟨?_, fun q => by rw [hsame]⟩, ?_, .refl⟩
    · cases request <;> simp [RightFor]
    · have hstored : k.storedBy stored (.process pid request)
          (.ok (if request = .drop then .done else .noProcess)) = stored := by
        simp only [storedBy, hunwritten]
      rw [hsame, hstored]
      exact h

end Requests

/-! ## A new process -/

theorem newSpace_eq (hids : sections.mapM (k.images[·]?) = some exe) :
    k.newSpace sections = exe.bytes ++ Bytes.zeros (k.config.stackPages * k.pageSize) := by
  obtain ⟨exe', hids', rfl, -⟩ := mapM_unloaded hids
  rw [newSpace, hids', Executable.bytes_unloaded]
  rfl

/-- A process that has stored nothing is shown its image and zeroes. -/
theorem space_new (hexe : k.program? pid = some exe)
    (hlen : exe.bytes.length = exe.pages * k.memory.pageSize) (hnone : ∀ a, stored pid a = none) :
    k.space stored pid = exe.bytes ++ Bytes.zeros (k.config.stackPages * k.pageSize) := by
  have hview : k.view stored pid = exe.byteAt := by
    funext a
    rw [view, hnone, hexe]
    rfl
  rw [space, extent, hview, hexe, Option.getD_some, Nat.add_mul,
    Executable.bytesAt_byteAt_zero hlen]
  rfl

/-- A new process is shown its image and its stack. -/
theorem Shown.made {flags : List Bool} (h : Shown content spaces stored k)
    (hload : k.Loadable sections flags exe) (hadmits : k.Admits sections) :
    (k.newSpace sections).length = (flags.length + k.config.stackPages) * k.pageSize ∧
      Shown content (spaces.set k.residency.nextPid (k.newSpace sections)) stored (k.withProcess
        (.fresh sections (flags ++ List.replicate k.config.stackPages false))) := by
  obtain ⟨exe₀, hids, hcount⟩ := hadmits
  cases hids.symm.trans (images_of_executable hload.executable)
  have hspawn := Spawned.made hload
  have hexemem : ∀ s ∈ exe.unloaded, s.InMemory :=
    fun s hs => h.faithful.inMemory s (mem_of_mapM hids hs)
  have hunit : ∀ s ∈ exe.unloaded, s.pageSize = k.memory.pageSize := by
    intro s hs
    obtain ⟨s₀, hs₀, rfl⟩ := List.mem_map.1 hs
    exact hload.pageSize s₀ hs₀
  have hfit : exe.unloaded.pages + k.config.stackPages < limit32 := hcount hunit
  have hbytes : exe.unloaded.bytes.length = exe.unloaded.pages * k.memory.pageSize :=
    Executable.length_bytes h.sound.memory.pageSize_pos hunit
  have hlen : flags.length = exe.unloaded.pages :=
    Executable.length_flags hexemem (by omega) (Executable.flagList_unloaded.trans hload.flagged)
  constructor
  · rw [newSpace_eq hids, List.length_append, hbytes, Bytes.length_zeros, hlen, Nat.add_mul]
    rfl
  · refine ⟨hspawn.sound h.sound, h.tlb, h.words, h.pageSize_lt, hspawn.confined h.confined,
      h.faithful.step (.spawned h.sound hspawn), ?_, ?_⟩
    · intro q o ho
      rw [Fits, program?_withProcess]
      split
      · exact ⟨_, hids, by omega⟩
      · next hq => exact h.fits (hspawn.outline_of_ne hq ho)
    · intro q o ho
      rw [Spaces.set]
      split
      · next hq =>
        have hnone : ∀ a, stored q a = none :=
          fun a => h.faithful.tracked.ahead (Nat.le_of_eq hq.symm)
        refine (newSpace_eq hids).trans (Eq.symm ?_)
        exact space_new (program?_withProcess.trans ((if_pos hq).trans hids)) hbytes hnone
      · next hq =>
        rw [h.space (hspawn.outline_of_ne hq ho)]
        exact (space_congr hspawn.same (program?_withProcess.trans (if_neg hq))).symm

/-! ## Runs -/

/-- A machine that can be built starts. -/
theorem boot_returns {pageSize : Nat} {config : Config} {store : σ} {images : List Section}
    {picks : List Nat} (h : config.Buildable pageSize) :
    ∃ k, boot pageSize config store images picks = .ok k := by
  obtain ⟨⟨n, -, hn, rfl⟩, hframes, hframes_lt, hslots, hslots_lt⟩ := h
  rcases boot_unless_too_large hn hframes hframes_lt hslots with ⟨-, hlarge⟩ | hboot
  · exact absurd hslots_lt (Nat.not_lt.2 hlarge)
  · exact hboot

section Requests

variable [BackingStore σ]

theorem Shown.spawn (h : Shown content spaces stored k) (hadmits : k.Admits sections) :
    Ends V (perform (.spawn sections)).run k fun reply k' =>
      k.Right spaces (.spawn sections) reply ∧
        Shown content (k.spacesBy spaces (.spawn sections) reply)
          (k.storedBy stored (.spawn sections) reply) k' ∧ k.SameMachine k' := by
  have hreturns : Ends V (Kernel.spawn sections).run k fun _ _ => True :=
    ends_spawn_admitted (fun s hs _ => h.faithful.inMemory s hs) hadmits
  refine ends_bind.2 ((hreturns.of_returns ends_spawn).imp ?_)
  intro r k' hmade
  have hsame := hmade.same
  cases hmade with
  | refused => exact ⟨trivial, h, hsame⟩
  | @made flags exe hload =>
    obtain ⟨hlen, hshown⟩ := h.made hload hadmits
    have hthere : (k.withProcess (.fresh sections
        (flags ++ List.replicate k.config.stackPages false))).residency.process?
          k.residency.nextPid = some _ := Residency.process?_addProcess.trans (if_pos rfl)
    simp only [process, ends_bind, ends_get, hthere]
    refine ⟨⟨Residency.process?_nextPid, ?_⟩, hshown, hsame⟩
    rw [hlen, Process.fresh, List.length_append, List.length_replicate]

/-- A request that can be answered, is answered right. -/
theorem Shown.request {request : Request} (h : Shown content spaces stored k)
    (hc : (arrayConduct content).Holds V)
    (hadmits : ∀ sections, request = .spawn sections → k.Admits sections) :
    Ends V (perform request).run k fun reply k' => k.Right spaces request reply ∧
      Shown content (k.spacesBy spaces request reply) (k.storedBy stored request reply) k' ∧
        k.SameMachine k' := by
  cases request with
  | spawn sections => exact h.spawn (hadmits sections rfl)
  | process pid request => exact h.serve hc

/-- The induction is on the requests. -/
theorem Shown.run {requests : List Request} (h : Shown content spaces stored k)
    (hc : (arrayConduct content).Holds fun _ => False)
    (hadmits : ∀ sections, .spawn sections ∈ requests → k.Admits sections) :
    k.Transparent spaces requests := by
  induction requests generalizing spaces stored k with
  | nil => exact .done
  | cons request rest ih =>
    have hfirst : ∀ sections, request = .spawn sections → k.Admits sections := by
      rintro sections rfl
      exact hadmits sections List.mem_cons_self
    obtain ⟨reply, k', hrun, hright, hshown, hsame⟩ := ends_iff_eq_ok.1 (h.request hc hfirst)
    refine .answered hrun hright (ih hshown fun sections hmem => ?_)
    exact (hadmits sections (List.mem_cons_of_mem _ hmem)).of_same hsame

/-- Whatever processes read, they read what they have stored, or what their images hold: paging
    does not show. -/
theorem boot_transparent {pageSize : Nat} {config : Config} {store : σ} {sections : List Section}
    {picks : List Nat} {requests : List Request} (harray : IsArray (fun _ => False) content)
    (hsizes : config.Buildable pageSize) (hmem : ∀ s ∈ sections, s.InMemory)
    (hfits : ∀ ids, .spawn ids ∈ requests → ∃ exe : Executable,
      ids.mapM (sections[·]?) = some exe ∧ exe.Countable pageSize config.stackPages) :
    ∃ k, boot pageSize config store sections picks = .ok k ∧
      k.Transparent (fun _ => []) requests := by
  obtain ⟨k, hboot⟩ : ∃ k, boot pageSize config store sections picks = .ok k := boot_returns hsizes
  obtain ⟨hsound, htlb⟩ := (Checked.ends_of_eq_ok hboot).1 ends_boot
  have hfresh := (Checked.ends_of_eq_ok hboot).1 ends_boot_fresh
  have hsize : Bytes.wordSize ∣ k.memory.pageSize ∧ k.memory.pageSize < limit32 := by
    obtain ⟨n, hlow, hhigh, hn⟩ := hsizes.pageSize
    rw [hfresh.pageSize, hn]
    exact ⟨Nat.pow_dvd_pow 2 hlow, two_pow_lt_limit32 hhigh⟩
  obtain ⟨hwords, hlt⟩ := hsize
  have hinmem : ∀ s ∈ k.images, s.InMemory := by
    intro s hs
    rw [hfresh.images_eq] at hs
    obtain ⟨s₀, hs₀, rfl⟩ := List.mem_map.1 hs
    obtain ⟨hdata, hbytes, hunit⟩ := hmem s₀ hs₀
    exact ⟨hdata, hbytes, hunit⟩
  have hnobody : ∀ {pid o}, k.residency.outline? pid = some o → False := by
    intro pid o ho
    cases (Residency.outline?_of_nil hfresh.empty).symm.trans ho
  have hshown : Shown content (fun _ => []) (fun _ _ => none) k :=
    ⟨hsound, htlb, hwords, hlt, hfresh.confined, .of_nil hfresh.empty hinmem,
      fun ho => (hnobody ho).elim, fun ho => (hnobody ho).elim⟩
  refine ⟨k, hboot, hshown.run harray.holds fun ids hspawn => ?_⟩
  obtain ⟨exe, hids, hcount⟩ := hfits ids hspawn
  exact hfresh.admits hids hcount

/-- Two pages of data and a page of stack take turns in the only frame.  The first page is
    written; it cannot leave the frame at once, as the first write to the store fails. -/
theorem boot_transparent_of_writeback : ∃ (k : Kernel MemoryStore) (requests : List Request),
    boot 4 { physPages := 1, tlbSize := 1, stackPages := 1 } { failingWrites := [0] }
        [{ name := "data", firstVpn := 0, readOnly := false, pageSize := 4
           content := .data (.ofList [1, 2, 3, 4, 5]) }] [] = .ok k ∧
      requests = [.spawn [0], .process 1 (.storeByte 1 9), .process 1 (.loadByte 4),
        .process 1 (.loadByte 4), .process 1 (.readBytes 0 (Bytes.zeros 14)), .process 1 .exit] ∧
      ((run requests).run k).toOption.map (fun r => r.1.map (·.toOption)) =
        some [some (.spawned 1 3), some .done, none, some (.byte 5),
          some (.filled 12 [1, 9, 3, 4, 5, 0, 0, 0, 0, 0, 0, 0, 0, 0]), some .done] ∧
      k.Transparent (fun _ => []) requests := by
  let config : Config := { physPages := 1, tlbSize := 1, stackPages := 1 }
  let sections : List Section := [{ name := "data", firstVpn := 0, readOnly := false, pageSize := 4
                                    content := .data (.ofList [1, 2, 3, 4, 5]) }]
  let requests : List Request := [.spawn [0], .process 1 (.storeByte 1 9), .process 1 (.loadByte 4),
    .process 1 (.loadByte 4), .process 1 (.readBytes 0 (Bytes.zeros 14)), .process 1 .exit]
  have hsizes : config.Buildable 4 := ⟨⟨2, by decide, by decide, rfl⟩, by decide, by decide,
    by decide, by decide⟩
  have hmem : ∀ s ∈ sections, s.InMemory := by
    intro s hs
    obtain rfl := List.mem_singleton.1 hs
    exact ⟨⟨_, rfl⟩, by simp [Section.bytes, limit63], by decide⟩
  have hfits : ∀ ids, .spawn ids ∈ requests → ∃ exe : Executable,
      ids.mapM (sections[·]?) = some exe ∧ exe.Countable 4 config.stackPages := by
    intro ids hids
    obtain rfl : ids = [0] := by simpa [requests] using hids
    refine ⟨sections, rfl, fun _ => ?_⟩
    simp [Executable.pages, Section.pages, Section.bytes, sections, config, limit32]
  have hall : ∃ k, boot 4 config ({ failingWrites := [0] } : MemoryStore) sections [] = .ok k ∧
      k.Transparent (fun _ => []) requests := boot_transparent MemoryStore.isArray hsizes hmem hfits
  have hrun : (boot 4 config ({ failingWrites := [0] } : MemoryStore) sections [] >>= fun k =>
      (fun r => r.1.map (·.toOption)) <$> (run requests).run k).toOption =
        some [some (.spawned 1 3), some .done, none, some (.byte 5),
          some (.filled 12 [1, 9, 3, 4, 5, 0, 0, 0, 0, 0, 0, 0, 0, 0]), some .done] := by
    decide +kernel
  obtain ⟨k, hboot, htransparent⟩ := hall
  refine ⟨k, requests, hboot, rfl, ?_, htransparent⟩
  rw [hboot] at hrun
  change ((fun r => r.1.map (·.toOption)) <$> (run requests).run k).toOption = _ at hrun
  cases hdone : (run requests).run k with
  | error v =>
    rw [hdone] at hrun
    cases hrun
  | ok r =>
    rw [hdone] at hrun
    exact hrun

end Requests

end Kernel

end DemandPaging
