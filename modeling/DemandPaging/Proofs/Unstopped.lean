/-
  Nothing stops a run.

  Processes of sections held in memory, the pages of which can be counted, are made or refused,
  and what they request is answered, with a value or with an error, whatever the store answers:
  no rule of use is broken on the way, and no sum leaves its word.  There is one exception: a
  process that has more pages in frames, or in slots, than its exit can count is not ended.  Its
  pages have less than four bytes.

  * `ends_spawn_admitted`: making a process;
  * `EndsUncounted`, `Overcounts`: the exception, for one request and in a run;
  * `Running`: what requests keep, and need to be answered;
  * `boot_run_returns`: a machine is started, and answers every run of requests.
-/
import DemandPaging.Proofs.ArrayStore
import DemandPaging.Proofs.Confined
import DemandPaging.Proofs.ImageBytes

namespace DemandPaging

/-- Nothing is asked of a store but that it deliver as many bytes as are asked for. -/
def fullReads (σ : Type) : Conduct σ where
  reads _ _ len r _ := ∀ bytes, r = .ok bytes → bytes.length = len
  writes _ _ _ _ _ := True

theorem IsArray.fullReads {σ : Type} [BackingStore σ] {V : Violation → Prop}
    {content : σ → Nat → UInt8} (h : IsArray V content) : (fullReads σ).Holds V where
  read s offset len := (h.read s offset len).imp fun r s' hread bytes hr => by
    rw [hread.2 bytes hr, length_bytesAt]
  write s offset src := (h.write s offset src).imp fun _ _ _ => trivial
  length hread := .inl (hread _ rfl)

/-- The section is held in memory, which is less than half of what 64 bits can count. -/
structure Section.Held (s : Section) : Prop where
  data : ∃ bytes, s.content = .data bytes
  bytes_lt : s.bytes.length < limit63

theorem Section.Held.inMemory {s : Section} (h : s.Held) (hsize : s.pageSize < limit63) :
    s.InMemory := ⟨h.data, h.bytes_lt, hsize⟩

/-- The pages of an executable and a stack are as many as 32 bits count, unless the executable has
    pages of another size than the machine. -/
def Executable.Countable (exe : Executable) (pageSize stackPages : Nat) : Prop :=
  (∀ s ∈ exe, s.pageSize = pageSize) → exe.pages + stackPages < limit32

theorem Executable.countable_unloaded {exe : Executable} {pageSize stackPages : Nat} :
    exe.unloaded.Countable pageSize stackPages ↔ exe.Countable pageSize stackPages := by
  rw [Countable, Countable, pages_unloaded]
  refine imp_congr_left ⟨fun h s hs => h s.unloaded (List.mem_map_of_mem hs), fun h s hs => ?_⟩
  obtain ⟨s₀, hs₀, rfl⟩ := List.mem_map.1 hs
  exact h s₀ hs₀

namespace Kernel

variable {σ : Type} {c : Conduct σ} {V : Violation → Prop} {k k' : Kernel σ} {pid : Pid}
  {sections : List SectionId}

/-! ## A machine that starts -/

/-- A machine with a frame and a TLB slot starts, unless its TLB does not fit an address space. -/
theorem boot_unless_too_large {n : Nat} {config : Config} {store : σ} {images : List Section}
    {picks : List Nat} (hn : n ≤ 31) (hframes : 0 < config.physPages)
    (hframes_lt : config.physPages < limit32) (hslots : 0 < config.tlbSize) :
    (boot (2 ^ n) config store images picks = .error .tooLarge ∧
        limit63 ≤ config.tlbSize * Mapping.recordSize) ∨
      ∃ k, boot (2 ^ n) config store images picks = .ok k := by
  have hcapacity : config.physPages * 2 ^ n < limit63 := by
    calc
      config.physPages * 2 ^ n ≤ config.physPages * 2 ^ 31 :=
        Nat.mul_le_mul_left _ (Nat.pow_le_pow_right (by decide) hn)
      _ < limit32 * 2 ^ 31 := Nat.mul_lt_mul_of_pos_right hframes_lt (by decide)
      _ = limit63 := rfl
  have hcapacity_lt : config.physPages * 2 ^ n < limit64 := Nat.lt_trans hcapacity (by decide)
  have htable : config.physPages * FrameInfo.recordSize < limit63 := by
    unfold limit32 at hframes_lt
    unfold FrameInfo.recordSize Mapping.recordSize limit63
    omega
  have hends : Checked.Ends (fun v => v = .tooLarge ∧ limit63 ≤ config.tlbSize * Mapping.recordSize)
      (boot (2 ^ n) config store images picks) fun _ => True := by
    simp [boot, PhysicalMemory.create, FrameTable.create, Tlb.create, Checked.ends_mulBelow,
      Checked.ends_reserve, hframes, Nat.not_le.2 hcapacity, hcapacity_lt, htable, hslots]
  cases hboot : boot (2 ^ n) config store images picks with
  | ok k => exact .inr ⟨k, rfl⟩
  | error v =>
    rw [hboot] at hends
    obtain ⟨rfl, hlarge⟩ := hends
    exact .inl ⟨rfl, hlarge⟩

/-! ## A new process -/

/-- The sections are there, and their pages can be counted. -/
def Admits (k : Kernel σ) (sections : List SectionId) : Prop :=
  ∃ exe : Executable, sections.mapM (k.images[·]?) = some exe ∧
    exe.Countable k.memory.pageSize k.config.stackPages

theorem Admits.of_same (h : k.Admits sections) (hsame : k.SameMachine k') : k'.Admits sections := by
  rw [Admits, hsame.images, hsame.config, hsame.pageSize]
  exact h

theorem Fresh.images_eq {pageSize : Nat} {config : Config} {images : List Section}
    (h : Fresh pageSize config images k) : k.images = images.map Section.unloaded := by
  rw [Kernel.images, h.sections]

/-- The sections with pages of the machine's size are small enough to be counted through. -/
theorem Fresh.inMemory {n : Nat} {config : Config} {images : List Section}
    (h : Fresh (2 ^ n) config images k) (hn : n ≤ 31) (hheld : ∀ s ∈ images, s.Held) :
    ∀ s ∈ k.images, s.pageSize = k.memory.pageSize → s.InMemory := by
  intro s hs hunit
  rw [h.images_eq] at hs
  obtain ⟨s₀, hs₀, rfl⟩ := List.mem_map.1 hs
  obtain ⟨hdata, hbytes⟩ := hheld s₀ hs₀
  refine ⟨hdata, hbytes, ?_⟩
  rw [hunit, h.pageSize]
  exact Nat.lt_of_le_of_lt (Nat.pow_le_pow_right (by decide) hn) (by decide)

/-- A fresh kernel admits sections that it was given. -/
theorem Fresh.admits {pageSize : Nat} {config : Config} {images : List Section} {exe : Executable}
    (h : Fresh pageSize config images k) (hids : sections.mapM (images[·]?) = some exe)
    (hcount : exe.Countable pageSize config.stackPages) : k.Admits sections := by
  refine ⟨exe.unloaded, h.images_eq ▸ mapM_images hids, ?_⟩
  rw [Executable.countable_unloaded, h.config, h.pageSize]
  exact hcount

/-- Sections in memory make a process or are refused. -/
theorem ends_spawn_admitted
    (hmem : ∀ s ∈ k.images, s.pageSize = k.memory.pageSize → s.InMemory)
    (hadmits : k.Admits sections) : Ends V (spawn sections).run k fun _ _ => True := by
  obtain ⟨exe₀, hids₀, hcount⟩ := hadmits
  obtain ⟨exe, hids, rfl, -⟩ := mapM_unloaded hids₀
  have hexe : k.executable sections = .ok exe := by rw [executable, hids]
  unfold spawn
  simp only [ends_bind, ends_get, ends_lift, ends_ofExcept, ends_ofAttempt, hexe, Checked.ends_ok]
  cases hsize : exe.checkPageSize k.pageSize with
  | error e => trivial
  | ok _ =>
    have hunit := pageSize_of_check hsize
    have hexemem : ∀ s ∈ exe, s.InMemory := by
      intro s hs
      have hthere : s.unloaded ∈ k.images := mem_of_mapM hids₀ (List.mem_map_of_mem hs)
      obtain ⟨hdata, hbytes, hlarge⟩ := hmem _ hthere (hunit s hs)
      exact ⟨hdata, hbytes, hlarge⟩
    have hfit : exe.pages + k.config.stackPages < limit32 :=
      Executable.countable_unloaded.1 hcount hunit
    have hpages : exe.numPages = .ok exe.pages := by
      rw [Executable.numPages, Executable.countFrom_eq hexemem (by omega), Nat.zero_add]
    have hsum : addBelow limit32 exe.pages k.config.stackPages =
        .ok (exe.pages + k.config.stackPages) := addBelow_eq_ok_iff.2 ⟨rfl, hfit⟩
    obtain ⟨r, htiled⟩ : ∃ r, exe.checkContiguous.run = .ok r :=
      Executable.contiguousFrom_returns hexemem (by omega)
    rw [mapError_ok]
    simp only [hpages, htiled, hsum, Checked.ends_ok]
    cases r with
    | error e => trivial
    | ok _ =>
      obtain ⟨flags, -, -, hmark⟩ :=
        Executable.flagPages_create k.config.stackPages htiled hpages
      simp only [hmark, Checked.ends_ok, mapError_ok]
      exact ends_change.2 trivial

/-! ## Runs -/

/-- The request ends a process that has too many pages in frames, or in slots, to be counted. -/
def EndsUncounted (k : Kernel σ) (request : Request) : Prop :=
  ∃ pid p, (request = .process pid .exit ∨ request = .process pid .drop) ∧
    k.residency.process? pid = some p ∧ p.exited = false ∧ ¬ p.Releasable

section Requests

variable [BackingStore σ]

/-- Such a request stops the machine. -/
theorem EndsUncounted.stops {request : Request} {pins : Frame → Nat} (h : k.EndsUncounted request)
    (hk : k.Sound pins none) : (perform request).run.run k = .error .overflow := by
  obtain ⟨pid, p, hends, hp, hlive, hcount⟩ := h
  have hexit : (Kernel.exit (σ := σ) pid).run.run k = .error .overflow :=
    hk.exit_overflows hp hlive hcount
  have hfor : ∀ request, (perform (.process pid request)).run.run k =
      (performFor pid request).run.run k := by
    intro request
    rw [perform, run_bind_of_ok (a := k) rfl, hp]
  rcases hends with rfl | rfl
  · rw [hfor, performFor, ExceptT.run_map, StateT.run_map, hexit]
    rfl
  · have hdrop : (Kernel.drop (σ := σ) pid).run.run k = .error .overflow := run_bind_of_stop hexit
    rw [hfor, performFor, ExceptT.run_map, StateT.run_map, hdrop]
    rfl

/-- The requests come to the end of such a process. -/
def Overcounts (k : Kernel σ) (requests : List Request) : Prop :=
  ∃ before request after replies k', requests = before ++ request :: after ∧
    (Kernel.run before).run k = .ok (replies, k') ∧ k'.EndsUncounted request

theorem Overcounts.cons {request : Request} {rest : List Request} {reply : Except PagingError Reply}
    (h : k'.Overcounts rest) (hrun : (perform request).run.run k = .ok (reply, k')) :
    k.Overcounts (request :: rest) := by
  obtain ⟨before, last, after, replies, k₁, rfl, hbefore, huncounted⟩ := h
  refine ⟨request :: before, last, after, reply :: replies, k₁, rfl, ?_, huncounted⟩
  rw [run_cons, hrun]
  change ((Kernel.run before).run k' >>= _) = _
  rw [hbefore]
  rfl

/-- What requests need to be answered, and keep: a sound kernel without pins, and sections in
    memory. -/
structure Running (k : Kernel σ) : Prop where
  sound : k.Sound (fun _ => 0) none
  tlb : 0 < k.tlb.slots.length
  inMemory : ∀ s ∈ k.images, s.pageSize = k.memory.pageSize → s.InMemory
  pageSize_lt : k.memory.pageSize < limit32
  confined : k.Confined

/-- A request is answered, and the next one can be, unless it ends a process that cannot be
    counted. -/
theorem Running.request {request : Request} (h : Running k) (hc : c.Holds fun _ => False)
    (hadmits : ∀ sections, request = .spawn sections → k.Admits sections) :
    Ends (fun v => v = .overflow ∧ k.EndsUncounted request) (perform request).run k
      fun _ k' => Running k' ∧ k.SameMachine k' := by
  have htolerated : Tolerated c (fun v => v = .overflow ∧ k.EndsUncounted request) k :=
    ⟨hc.allow fun _ => False.elim, fun s hs hsize => (h.inMemory s hs hsize).loads,
      .inl h.pageSize_lt⟩
  have hexit : ∀ pid, request = .process pid .exit ∨ request = .process pid .drop →
      Exits (fun v => v = .overflow ∧ k.EndsUncounted request) pid k := by
    intro pid hends p hp hlive
    by_cases hcount : p.Releasable
    · exact .inl hcount
    · exact .inr ⟨rfl, pid, p, hends, hp, hlive, hcount⟩
  have hdone := ends_perform htolerated h.sound h.tlb
    (fun _ => .inl (show 0 + 1 < limit32 by decide)) hexit
    fun sections hrequest => ends_spawn_admitted h.inMemory (hadmits sections hrequest)
  have hconfined : Ends (fun _ => True) (perform request).run k fun _ k' => k'.Confined :=
    ends_perform_confined (c := .any σ) .any h.sound h.tlb h.confined
  refine (hdone.and ((hdone.imp fun _ _ _ => trivial).of_returns hconfined)).imp ?_
  rintro _ k' ⟨⟨hsound, hsame⟩, hconfined'⟩
  refine ⟨⟨hsound, hsame.tlbSize ▸ h.tlb, ?_, hsame.pageSize ▸ h.pageSize_lt, hconfined'⟩, hsame⟩
  rw [hsame.images, hsame.pageSize]
  exact h.inMemory

/-- The induction is on the requests. -/
theorem Running.run {requests : List Request} (h : Running k) (hc : c.Holds fun _ => False)
    (hadmits : ∀ sections, .spawn sections ∈ requests → k.Admits sections) :
    Ends (fun v => v = .overflow ∧ k.Overcounts requests) (Kernel.run requests) k
      fun _ k' => Running k' ∧ k.SameMachine k' := by
  induction requests generalizing k with
  | nil => exact ⟨h, .refl⟩
  | cons request rest ih =>
    have hfirst : ∀ sections, request = .spawn sections → k.Admits sections := by
      rintro sections rfl
      exact hadmits sections List.mem_cons_self
    have hdone : Ends (fun v => v = .overflow ∧ k.Overcounts (request :: rest))
        (perform request).run k fun _ k' => Running k' ∧ k.SameMachine k' :=
      (h.request hc hfirst).allow fun v hv => ⟨hv.1, [], request, rest, [], k, rfl, rfl, hv.2⟩
    refine step_ends_bind.2 (hdone.with_run.imp fun reply k₁ hfirst => ?_)
    obtain ⟨⟨hrunning, hsame⟩, hrun⟩ := hfirst
    have hrest := ih hrunning fun sections hmem =>
      (hadmits sections (List.mem_cons_of_mem _ hmem)).of_same hsame
    refine step_ends_bind.2 ((hrest.allow fun v hv => ⟨hv.1, hv.2.cons hrun⟩).imp ?_)
    exact fun _ _ hlast => ⟨hlast.1, hsame.trans hlast.2⟩

/-- A run stops where a process ends that cannot be counted, the pages of which have less than
    four bytes. -/
theorem Running.overflows {requests : List Request} (h : Running k) (hc : c.Holds fun _ => False)
    (hadmits : ∀ sections, .spawn sections ∈ requests → k.Admits sections)
    (hover : k.Overcounts requests) :
    k.memory.pageSize < 4 ∧ (Kernel.run requests).run k = .error .overflow := by
  obtain ⟨before, request, after, replies, k', rfl, hbefore, huncounted⟩ := hover
  obtain ⟨hrunning, hsame⟩ := ((h.run hc fun sections hmem =>
    hadmits sections (List.mem_append_left _ hmem)).whenever).of_run hbefore
  have hstop := huncounted.stops hrunning.sound
  obtain ⟨pid, p, -, hp, hlive, hcount⟩ := huncounted
  constructor
  · rw [← hsame.pageSize]
    exact Nat.lt_of_not_le fun hsize =>
      hcount (hrunning.confined.releasable hrunning.sound hp hlive hsize)
  · rw [run_append, hbefore]
    change ((Kernel.run (request :: after)).run k' >>= _) = _
    rw [run_cons, hstop]
    rfl

/-- A machine with at least one frame and one TLB slot answers every run of requests, whatever
    fails on the way, if the sections of its processes are in memory and their pages can be
    counted, up to the end of a process that has too many pages in frames, or in slots.  Only
    pages of less than four bytes can be that many.  The machine is not started at all when its TLB
    does not fit an address space. -/
theorem boot_run_returns {n : Nat} {config : Config} {store : σ} {images : List Section}
    {picks : List Nat} {requests : List Request} (hstore : (fullReads σ).Holds fun _ => False)
    (hn : n ≤ 31) (hframes : 0 < config.physPages) (hframes_lt : config.physPages < limit32)
    (hslots : 0 < config.tlbSize) (hheld : ∀ s ∈ images, s.Held)
    (hfits : ∀ ids, .spawn ids ∈ requests → ∃ exe : Executable,
      ids.mapM (images[·]?) = some exe ∧ exe.Countable (2 ^ n) config.stackPages) :
    (boot (2 ^ n) config store images picks = .error .tooLarge ∧
        limit63 ≤ config.tlbSize * Mapping.recordSize) ∨
      ∃ k, boot (2 ^ n) config store images picks = .ok k ∧
        ((¬ k.Overcounts requests ∧ ∃ replies k', (Kernel.run requests).run k = .ok (replies, k')) ∨
          (k.Overcounts requests ∧ n ≤ 1 ∧ (Kernel.run requests).run k = .error .overflow)) := by
  rcases boot_unless_too_large hn hframes hframes_lt hslots with hlarge | ⟨k, hboot⟩
  · exact .inl hlarge
  · obtain ⟨hsound, htlb⟩ := (Checked.ends_of_eq_ok hboot).1 ends_boot
    have hfresh := (Checked.ends_of_eq_ok hboot).1 ends_boot_fresh
    have hrunning : Running k := ⟨hsound, htlb, hfresh.inMemory hn hheld,
      hfresh.pageSize ▸ two_pow_lt_limit32 hn, hfresh.confined⟩
    have hadmits : ∀ sections, .spawn sections ∈ requests → k.Admits sections := by
      intro sections hspawn
      obtain ⟨exe, hids, hcount⟩ := hfits sections hspawn
      exact hfresh.admits hids hcount
    refine .inr ⟨k, hboot, ?_⟩
    by_cases hover : k.Overcounts requests
    · obtain ⟨hsmall, hstop⟩ := hrunning.overflows hstore hadmits hover
      rw [hfresh.pageSize] at hsmall
      have hn : n < 2 := (Nat.pow_lt_pow_iff_right (by decide)).1 (hsmall : 2 ^ n < 2 ^ 2)
      exact .inr ⟨hover, Nat.le_of_lt_succ hn, hstop⟩
    · obtain ⟨replies, k', hrun, -⟩ := ends_iff_eq_ok.1
        ((hrunning.run hstore hadmits).allow fun _ hv => hover hv.2)
      exact .inl ⟨hover, replies, k', hrun⟩

/-! ### Small pages -/

/-- A machine of one frame, for processes with a stack of one page. -/
def smallest : Config := { physPages := 1, tlbSize := 1, stackPages := 1 }

/-- A section of two pages of two bytes. -/
def narrowData : Section where
  name := "data"
  firstVpn := 0
  readOnly := false
  pageSize := 2
  content := .data (.ofList [1, 2, 3])

/-- What its process does before and after it exits. -/
def narrowRequests : List Request :=
  [.spawn [0], .process 1 (.storeByte 1 9), .process 1 (.loadByte 4), .process 1 (.loadByte 4),
    .process 1 (.loadWord 0), .process 1 (.loadWord 0), .process 1 (.readBytes 1 [0, 0, 0]),
    .process 1 .exit, .process 1 .drop]

theorem held_narrowData : ∀ s ∈ [narrowData], s.Held := by
  intro s hs
  obtain rfl := List.mem_singleton.1 hs
  exact ⟨⟨_, rfl⟩, by simp [narrowData, Section.bytes, limit63]⟩

theorem countable_narrowData {ids : List SectionId} (hids : .spawn ids ∈ narrowRequests) :
    ∃ exe : Executable, ids.mapM ([narrowData][·]?) = some exe ∧
      exe.Countable (2 ^ 1) smallest.stackPages := by
  obtain rfl : ids = [0] := by simpa [narrowRequests] using hids
  refine ⟨[narrowData], rfl, fun _ => ?_⟩
  simp [Executable.pages, Section.pages, Section.bytes, narrowData, smallest, limit32]

/-- With pages of two bytes, words lie across pages and are refused.  The first write to the store
    fails, and so does the first read. -/
theorem boot_run_returns_of_small_pages : ∃ (k k' : Kernel MemoryStore) (requests : List Request)
    (replies : List (Except PagingError Reply)),
    boot 2 { physPages := 1, tlbSize := 1, stackPages := 1 }
        { failingWrites := [0], failingReads := [0] }
        [{ name := "data", firstVpn := 0, readOnly := false, pageSize := 2
           content := .data (.ofList [1, 2, 3]) }] [] = .ok k ∧
      requests = [.spawn [0], .process 1 (.storeByte 1 9), .process 1 (.loadByte 4),
        .process 1 (.loadByte 4), .process 1 (.loadWord 0), .process 1 (.loadWord 0),
        .process 1 (.readBytes 1 [0, 0, 0]), .process 1 .exit, .process 1 .drop] ∧
      (Kernel.run requests).run k = .ok (replies, k') ∧
      replies.map (·.toOption) = [some (.spawned 1 3), some .done, none, some (.byte 0), none,
        none, some (.filled 3 [9, 3, 0]), some .done, some .done] := by
  have hreads : (fullReads MemoryStore).Holds fun _ => False := MemoryStore.isArray.fullReads
  have hrun : (boot 2 smallest ({ failingWrites := [0], failingReads := [0] } : MemoryStore)
      [narrowData] [] >>= fun k =>
        (fun r => r.1.map (·.toOption)) <$> (Kernel.run narrowRequests).run k).toOption =
        some [some (.spawned 1 3), some .done, none, some (.byte 0), none, none,
          some (.filled 3 [9, 3, 0]), some .done, some .done] := by
    decide +kernel
  have hends : (boot (2 ^ 1) smallest ({ failingWrites := [0], failingReads := [0] } : MemoryStore)
      [narrowData] [] = .error .tooLarge ∧ limit63 ≤ smallest.tlbSize * Mapping.recordSize) ∨ _ :=
    boot_run_returns hreads (by decide) (by decide) (by decide) (by decide) held_narrowData
      fun _ => countable_narrowData
  rcases hends with ⟨-, hlarge⟩ | ⟨k, hboot, hends⟩
  · exact absurd hlarge (by decide)
  · obtain ⟨k₀, hboot₀, hshown⟩ := Checked.exists_of_toOption_bind hrun
    cases hboot.symm.trans hboot₀
    rcases hends with ⟨-, replies, k', hall⟩ | ⟨-, -, hstop⟩
    · rw [hall] at hshown
      exact ⟨k, k', narrowRequests, replies, hboot, rfl, hall, Option.some.inj hshown⟩
    · rw [hstop] at hshown
      cases hshown

end Requests

end Kernel

end DemandPaging
