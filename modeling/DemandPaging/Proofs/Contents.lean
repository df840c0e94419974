/-
  What the pages of a process hold.

  A process sees its image, followed by zeroes, with what it has stored put over it
  (`Kernel.view`).  A page has this content wherever it is: in a frame, in a slot, or nowhere if
  its process has not written to it (`Kernel.Faithful`).  A step may move the content of a page but
  changes none of it (`Step.holding`); a write changes the page that is written, and what its
  process sees, in the same way (`Faithful.wrote`).
-/
import DemandPaging.Proofs.ArrayStore
import DemandPaging.Proofs.DirtyTracking
import DemandPaging.Proofs.ImageBytes

namespace DemandPaging

/-! ## Images -/

theorem mapM_getElem? {α β : Type} {c : α → Option β} {l : List α} {bs : List β} {i : Nat} {a : α}
    (h : l.mapM c = some bs) (ha : l[i]? = some a) : bs[i]? = c a := by
  induction l generalizing bs i with
  | nil => cases ha
  | cons a₀ rest ih =>
    obtain ⟨b, tail, hb, htail, rfl⟩ := mapM_cons_eq_some.1 h
    cases i with
    | zero =>
      cases ha
      exact hb.symm
    | succ i =>
      rw [List.getElem?_cons_succ]
      exact ih htail ha

namespace Executable

variable {exe : Executable} {start len : Nat}

/-- The byte of an image at an address: behind the image there are zeroes. -/
def byteAt (exe : Executable) (a : Nat) : UInt8 := exe.bytes[a]?.getD 0

theorem bytesAt_byteAt (hin : start + len ≤ exe.bytes.length) :
    bytesAt exe.byteAt start len = Bytes.slice exe.bytes start len := by
  refine List.ext_getElem? fun i => ?_
  rw [getElem?_bytesAt, Bytes.getElem?_slice]
  split
  · rw [byteAt, List.getElem?_eq_getElem (by omega)]
    rfl
  · rfl

theorem bytesAt_byteAt_of_le (hout : exe.bytes.length ≤ start) :
    bytesAt exe.byteAt start len = Bytes.zeros len := by
  refine List.ext_getElem? fun i => ?_
  rw [getElem?_bytesAt, Bytes.zeros, List.getElem?_replicate, byteAt,
    List.getElem?_eq_none (by omega)]
  rfl

/-- What is loaded for a page of contiguous sections is what the image has there. -/
theorem loadAt_eq {pageSize j : Nat} {v : Vpn} {flags : List Bool} {s s' : Section} {page : Bytes}
    (hpos : 0 < pageSize) (hsize : ∀ s ∈ exe, s.pageSize = pageSize)
    (hmem : ∀ s ∈ exe, s.InMemory) (hfit : exe.pages < limit32)
    (htiled : (exe.contiguousFrom 0).run = .ok (.ok ())) (hflags : exe.flagList = .ok flags)
    (hposition : exe.position? v = .ok (some j)) (hj : exe[j]? = some s.unloaded)
    (hload : (Section.loadAt v pageSize).run.run s = .ok (.ok page, s')) :
    page = bytesAt exe.byteAt (v * pageSize) pageSize := by
  have hlen := length_flags hmem hfit hflags
  have hin : v < exe.pages := by
    refine Nat.not_le.1 fun hout => ?_
    have hnone : exe.position? v = .ok none := position?_of_le htiled hflags (by omega)
    cases hposition.symm.trans hnone
  have hplace : exe.position? (0 + v) = .ok (some j) := by rwa [Nat.zero_add]
  have hslice := page_of_contiguous hpos hsize hmem hfit htiled hin hplace hj
  have hthere : s.unloaded ∈ exe := List.mem_of_getElem? hj
  have hunloaded := hmem _ hthere
  have hs : s.InMemory := ⟨hunloaded.data, hunloaded.bytes_lt, hunloaded.pageSize_lt⟩
  obtain rfl : s.pageSize = pageSize := hsize s.unloaded hthere
  rw [Section.loadAt_data hs hload, bytesAt_byteAt, hslice, Nat.zero_add]
  · rfl
  · rw [length_bytes hpos hsize]
    exact Bytes.unit_le hin

/-- An image with zeroes behind it. -/
theorem bytesAt_byteAt_zero {n : Nat} (hlen : exe.bytes.length = len) :
    bytesAt exe.byteAt 0 (len + n) = exe.bytes ++ Bytes.zeros n := by
  have himage : bytesAt exe.byteAt 0 len = exe.bytes := by
    rw [bytesAt_byteAt (by omega), Bytes.slice, List.drop_zero, ← hlen, List.take_length]
  rw [← bytesAt_append, himage, bytesAt_byteAt_of_le (by omega)]

end Executable

namespace Kernel

variable {σ : Type} {content : σ → Nat → UInt8} {c : Conduct σ} {pins : Frame → Nat}
  {k k' : Kernel σ} {pid q : Pid} {v w : Vpn} {e e' : PageEntry} {f : Frame} {p : Process}
  {stored : Stored} {log : List Access} {exe : Executable} {page bytes : Bytes}

/-- What an image brings is what is there in the image. -/
theorem Fetched.image_eq {stackPages : Nat} (hfetch : Fetched c p e k (.ok page) k')
    (habsent : e.state = .absent) (hpos : 0 < k.memory.pageSize)
    (hlaid : p.outline.Laid k.images k.memory.pageSize stackPages)
    (hexe : p.executable.mapM (k.images[·]?) = some exe) (hmem : ∀ s ∈ k.images, s.InMemory)
    (hfit : exe.pages < limit32) :
    page = bytesAt exe.byteAt (e.vpn * k.memory.pageSize) k.memory.pageSize := by
  obtain ⟨exe₁, flags, hexe₁, hsize, htiled, hflags, hpages, -⟩ := hlaid
  cases hexe.symm.trans hexe₁
  have hexemem : ∀ s ∈ exe, s.InMemory := fun s hs => hmem s (mem_of_mapM hexe hs)
  generalize hresult : Except.ok page = result at hfetch
  cases hfetch with
  | swapped hs => cases habsent.symm.trans hs
  | @zero exe₀ n _ hexe₀ hpages₀ hstack =>
    cases hresult
    cases hexe.symm.trans (images_of_executable hexe₀)
    cases hpages.symm.trans (Executable.countFrom_unloaded.trans hpages₀)
    refine (Executable.bytesAt_byteAt_of_le ?_).symm
    rw [Executable.length_bytes hpos hsize, ← Executable.length_flags hexemem hfit hflags]
    exact Nat.mul_le_mul_right _ hstack
  | @image exe₀ j sectionId s r s' _ hexe₀ hposition hid hsection hload =>
    cases hexe.symm.trans (images_of_executable hexe₀)
    have himage : exe₀.unloaded[j]? = some s.unloaded := by
      rw [mapM_getElem? hexe hid, images, List.getElem?_map, hsection, Option.map_some]
    cases r with
    | error _ => cases hresult
    | ok _ =>
      cases hresult
      exact Executable.loadAt_eq hpos hsize hexemem hfit htiled hflags
        (Executable.position?_unloaded.trans hposition) himage hload

/-! ## What processes see -/

/-- The executable that process `pid` has been made of. -/
def program? (k : Kernel σ) (pid : Pid) : Option Executable :=
  (k.residency.outline? pid).bind fun o => o.executable.mapM (k.images[·]?)

/-- The pages of the executable of process `pid` can be counted with 32 bits. -/
def Fits (k : Kernel σ) (pid : Pid) : Prop :=
  ∃ exe, k.program? pid = some exe ∧ exe.pages < limit32

/-- The byte that process `pid` sees at an address: what it has stored there, or what its image
    has there. -/
def view (k : Kernel σ) (stored : Stored) (pid : Pid) (a : Nat) : UInt8 :=
  (stored pid a).getD (((k.program? pid).getD []).byteAt a)

/-- What is put into memory, its process sees. -/
theorem view_put {vaddr : Nat} : k.view (stored.put pid vaddr bytes) q =
    if q = pid then writeAt (k.view stored pid) vaddr bytes else k.view stored q := by
  funext a
  unfold view Stored.put writeAt
  by_cases hq : q = pid
  · subst hq
    rw [if_pos rfl]
    by_cases hlow : a < vaddr
    · rw [if_neg (by omega), if_pos hlow]
    · rw [if_pos ⟨rfl, by omega⟩, if_neg hlow]
      cases bytes[a - vaddr]? <;> rfl
  · rw [if_neg (by simp [hq]), if_neg hq]

/-- A page that has not been written is that of the image. -/
theorem view_of_not_written (h : ¬ stored.Written k.memory.pageSize pid v)
    (hexe : k.program? pid = some exe) :
    bytesAt (k.view stored pid) (v * k.memory.pageSize) k.memory.pageSize =
      bytesAt exe.byteAt (v * k.memory.pageSize) k.memory.pageSize := by
  refine bytesAt_congr fun i hi => ?_
  rw [view, hexe]
  cases hs : stored pid (v * k.memory.pageSize + i) with
  | none => rfl
  | some b => exact absurd ⟨_, pageOf_mul_add hi, by rw [hs]; rfl⟩ h

/-- A process keeps its executable. -/
theorem program?_eq {o o' : Process.Outline} (himages : k'.images = k.images)
    (ho : k.residency.outline? q = some o) (ho' : k'.residency.outline? q = some o')
    (hages : o.Ages o') : k'.program? q = k.program? q := by
  rw [program?, program?, ho, ho', Option.bind_some, Option.bind_some, hages.executable, himages]

theorem Course.program? {o' : Process.Outline} (h : Course c pins k log k')
    (hq : q < k.residency.nextPid) (ho' : k'.residency.outline? q = some o') :
    k'.program? q = k.program? q := by
  obtain ⟨o, ho, hages⟩ := h.outline hq ho'
  exact program?_eq h.same.images ho ho' hages

theorem program?_withProcess {sections : List SectionId} {flags : List Bool} :
    (k.withProcess (.fresh sections flags)).program? q =
      if q = k.residency.nextPid then sections.mapM (k.images[·]?) else k.program? q := by
  have houtline : (k.withProcess (.fresh sections flags)).residency.outline? q = _ :=
    Residency.outline?_addProcess
  rw [program?, houtline]
  split
  · rfl
  · rfl

/-! ## Where the content of a page is -/

/-- The content of a page that is where `state` says, if it is anywhere. -/
def holding (content : σ → Nat → UInt8) (k : Kernel σ) : PageState → Option Bytes
  | .absent => none
  | .resident f => some (k.memory.frameBytes f)
  | .swapped s => some (k.swap.slotBytes content s)

/-- Content was where it is if its frame, or its slot, had the same bytes. -/
theorem holding_of {state : PageState} (hbytes : k'.holding content state = some bytes)
    (hframe : ∀ f, state = .resident f → k'.memory.frameBytes f = k.memory.frameBytes f)
    (hslot : ∀ t, state = .swapped t → k'.swap.slotBytes content t = k.swap.slotBytes content t) :
    k.holding content state = some bytes := by
  rw [← hbytes]
  cases state with
  | absent => rfl
  | resident f => exact congrArg some (hframe f rfl).symm
  | swapped t => exact congrArg some (hslot t rfl).symm

/-- Where the content `bytes` of page `w` of process `q` comes from: the page had it before, or
    has got it from its image. -/
inductive Brought (content : σ → Nat → UInt8) (pins : Frame → Nat) (k : Kernel σ) (q : Pid) (w : Vpn)
    (bytes : Bytes) : Prop where
  | held {e : PageEntry} (he : k.residency.page? q w = some e)
    (hbytes : k.holding content e.state = some bytes)
  | fetched {f : Frame} {e : PageEntry} {p : Process} {k₁ : Kernel σ} (h : k.Sound pins (some f))
    (he : k.residency.page? q w = some e) (habsent : e.state = .absent)
    (hp : k.residency.outline? q = some p.outline)
    (hfetch : Fetched (arrayConduct content) p e k (.ok bytes) k₁)

/-- What leaves its frame comes along into its slot, and nothing else moves. -/
theorem Vacated.brought {r : Except PagingError Unit}
    (hvac : Vacated (arrayConduct content) f pid v e k r k') (h : k.Sound pins none)
    (he : k.residency.page? pid v = some e) (hs : e.state = .resident f)
    (he' : k'.residency.page? q w = some e') (hbytes : k'.holding content e'.state = some bytes) :
    Brought content pins k q w bytes := by
  have hf : f < k.memory.numFrames := h.numFrames ▸ FrameTable.lt_size (h.frames.resident he hs).2
  have hlen : (k.memory.frameBytes f).length = k.swap.pageSize :=
    (PhysicalMemory.length_frameBytes h.memory hf).trans h.swapSize.symm
  cases hvac with
  | dropped =>
    rw [residency_withoutPage, Residency.page?_link he] at he'
    split at he'
    · cases he'
      cases hbytes
    · exact .held he' hbytes
  | @saved s _ _ hswap =>
    rw [residency_withoutPage, Residency.page?_link he] at he'
    split at he'
    · next hqw =>
      obtain ⟨rfl, rfl⟩ := hqw
      cases he'
      refine .held he ?_
      rw [hs]
      exact (congrArg some (hswap.slotBytes_self hlen)).symm.trans hbytes
    · refine .held he' (holding_of hbytes (fun _ _ => rfl) fun t ht => ?_)
      refine hswap.slotBytes_ne hlen fun heq => ?_
      obtain rfl := Except.ok.inj heq
      have howner := h.slots s q w (by rw [he', Option.map_some, ht])
      cases howner.symm.trans hswap.owner_eq_none
  | refused _ hswap =>
    refine .held he' (holding_of hbytes (fun _ _ => rfl) fun t _ => ?_)
    exact hswap.slotBytes_ne hlen (by simp)

/-- The frame in hand has the page that was fetched; no other frame has changed. -/
theorem Fetched.frameBytes {g : Frame} (hfetch : Fetched c p e k (.ok page) k')
    (h : k.Sound pins (some f)) (hlen : page.length = k'.memory.pageSize) :
    (k'.withPage f pid v e page).memory.frameBytes g =
      if g = f then page else k.memory.frameBytes g := by
  have hmemory : k'.memory = k.memory := by
    obtain ⟨_, _, rfl, -⟩ := hfetch.rest
    rfl
  have hf : f < k'.memory.numFrames := by
    obtain ⟨i, hi⟩ := h.frames.atHand.known
    rw [hmemory]
    exact h.numFrames ▸ FrameTable.lt_size hi
  rw [← hmemory]
  exact PhysicalMemory.frameBytes_patch_page (hmemory ▸ h.memory) hf hlen

/-- What comes into the frame in hand was in the slot of its page, or has been fetched, and nothing
    else moves. -/
theorem Fetched.brought (hfetch : Fetched (arrayConduct content) p e k (.ok page) k')
    (h : k.Sound pins (some f)) (hp : k.residency.outline? pid = some p.outline)
    (he : k.residency.page? pid v = some e) (hs : ∀ g, e.state ≠ .resident g)
    (hlen : page.length = k'.memory.pageSize)
    (he' : (k'.withPage f pid v e page).residency.page? q w = some e')
    (hbytes : (k'.withPage f pid v e page).holding content e'.state = some bytes) :
    Brought content pins k q w bytes := by
  have hresidency : k'.residency = k.residency := by
    obtain ⟨_, _, rfl, -⟩ := hfetch.rest
    rfl
  change (k'.residency.link pid v (e.loaded f) f _).page? q w = some e' at he'
  rw [hresidency, Residency.page?_link he] at he'
  split at he'
  · next hqw =>
    obtain ⟨rfl, rfl⟩ := hqw
    cases he'
    have hpage : page = bytes := by
      have hloaded : some ((k'.withPage f q w e page).memory.frameBytes f) = some bytes := hbytes
      rw [hfetch.frameBytes h hlen, if_pos rfl] at hloaded
      exact Option.some.inj hloaded
    subst hpage
    cases hstate : e.state with
    | resident g => exact absurd hstate (hs g)
    | absent => exact .fetched h he hstate hp hfetch
    | swapped s =>
      refine .held he ?_
      rw [hstate]
      exact congrArg some (hfetch.page_eq hstate).symm
  · refine .held he' (holding_of hbytes (fun g hg => ?_) fun t _ => hfetch.slotBytes)
    refine (hfetch.frameBytes h hlen).trans (if_neg ?_)
    rintro rfl
    exact (h.frames.resident he' hg).1 rfl

/-- A step brings content to a page from where it was. -/
theorem Step.holding (h : Step (arrayConduct content) pins k k')
    (he' : k'.residency.page? q w = some e') (hbytes : k'.holding content e'.state = some bytes) :
    Brought content pins k q w bytes := by
  cases h with
  | settled h _ _ =>
    rw [Residency.page?_absorb] at he'
    obtain ⟨e, he, rfl⟩ := Option.map_eq_some_iff.1 he'
    rw [PageEntry.state_absorb] at hbytes
    exact .held he hbytes
  | swept _ hswept =>
    obtain ⟨e, he, hcold⟩ := hswept.cools.page?_of_some he'
    have hstate : e'.state = e.state := (congrArg PageEntry.state hcold :)
    rw [hstate] at hbytes
    exact .held he hbytes
  | counted => exact .held he' hbytes
  | pooled => exact .held (Residency.page?_frames.symm.trans he') hbytes
  | vacated h he hs _ _ hvac => exact hvac.brought h he hs he' hbytes
  | loaded h _ hp he hs hfetch hlen => exact hfetch.brought h hp he hs hlen he' hbytes
  | returned _ _ _ hfetch =>
    have hslot : ∀ t, _ = k.swap.slotBytes content t := fun t => hfetch.slotBytes
    obtain ⟨_, _, rfl, -⟩ := hfetch.rest
    refine .held (Residency.page?_frames.symm.trans he') ?_
    exact holding_of hbytes (fun _ _ => rfl) fun t _ => hslot t
  | spawned _ hspawn =>
    cases hspawn with
    | refused => exact .held he' hbytes
    | made =>
      rcases Residency.page?_addProcess he' with hold | ⟨rfl, -, hnew⟩
      · exact .held hold hbytes
      · rw [hnew] at hbytes
        cases hbytes
  | exited h hexit =>
    cases hexit with
    | missing => exact .held he' hbytes
    | again => exact .held he' hbytes
    | ended =>
      have hfinish := Residency.page?_finish.symm.trans he'
      split at hfinish
      · cases hfinish
      · exact .held hfinish hbytes
  | forgotten _ hgone => exact .held ((Residency.page?_dropProcess hgone).symm.trans he') hbytes

/-! ## Pages hold what their processes see -/

/-- Wherever the content of a page is, it is what its process sees there. -/
structure Faithful (content : σ → Nat → UInt8) (stored : Stored) (k : Kernel σ) : Prop where
  inMemory : ∀ s ∈ k.images, s.InMemory
  tracked : k.Tracked stored
  page : ∀ {pid v e bytes}, k.residency.page? pid v = some e → k.Fits pid →
    k.holding content e.state = some bytes →
      bytes = bytesAt (k.view stored pid) (v * k.memory.pageSize) k.memory.pageSize

theorem view_congr (h : k'.program? q = k.program? q) : k'.view stored q = k.view stored q := by
  funext a
  rw [view, view, h]

theorem fits_congr (h : k'.program? q = k.program? q) : k'.Fits q ↔ k.Fits q := by
  rw [Fits, Fits, h]

theorem Faithful.step (h : Faithful content stored k)
    (hstep : Step (arrayConduct content) pins k k') : Faithful content stored k' where
  inMemory := by
    rw [hstep.same.images]
    exact h.inMemory
  tracked := h.tracked.step hstep
  page := by
    intro q w e' bytes he' hfits hbytes
    obtain ⟨p', hp', -⟩ := Residency.page?_eq_some_iff.1 he'
    have houtline := Residency.outline?_of_process hp'
    have hkept : ∀ {e}, k.residency.page? q w = some e → k'.program? q = k.program? q := by
      intro e he
      obtain ⟨p, hp, -⟩ := Residency.page?_eq_some_iff.1 he
      exact hstep.course.program? (Residency.lt_nextPid hp) houtline
    rw [hstep.same.pageSize]
    cases hstep.holding he' hbytes with
    | held he hold =>
      have hsame := hkept he
      rw [view_congr hsame]
      exact h.page he ((fits_congr hsame).1 hfits) hold
    | @fetched f e p k₁ hk he habsent hp hfetch =>
      have hsame := hkept he
      obtain ⟨exe, hexe, hfit⟩ := (fits_congr hsame).1 hfits
      have hids : p.executable.mapM (k.images[·]?) = some exe := by
        rw [← hexe, Kernel.program?, hp]
        rfl
      have hclean : ¬ stored.Written k.memory.pageSize q w := by
        rw [← h.tracked.changed he, PageEntry.changed_absent habsent]
        simp
      have hpos := hk.memory.pageSize_pos
      rw [view_congr hsame, view_of_not_written hclean hexe,
        hfetch.image_eq habsent hpos (hk.laid hp) hids h.inMemory hfit, hk.frames.numbered he]

/-- An access leaves content where it is. -/
theorem Accessed.state {write : Bool} (hacc : Accessed pins pid v f write k k')
    (he' : k'.residency.page? q w = some e') :
    ∃ e, k.residency.page? q w = some e ∧ e.state = e'.state := by
  have hstate := hacc.states q w
  rw [he', Option.map_some] at hstate
  exact Option.map_eq_some_iff.1 hstate.symm

theorem Accessed.program? {write : Bool} (hacc : Accessed pins pid v f write k k') :
    k'.program? q = k.program? q := by
  rw [Kernel.program?, Kernel.program?, hacc.stays.keeps.outline, hacc.stays.keeps.images]

theorem Faithful.read (h : Faithful content stored k) (hacc : Accessed pins pid v f false k k') :
    Faithful content stored k' where
  inMemory := by
    rw [hacc.stays.keeps.images]
    exact h.inMemory
  tracked := h.tracked.read hacc
  page := by
    intro q w e' bytes he' hfits hbytes
    obtain ⟨e, he, hstate⟩ := hacc.state he'
    rw [← hstate] at hbytes
    rw [hacc.stays.keeps.pageSize, view_congr hacc.program?]
    refine h.page he ((fits_congr hacc.program?).1 hfits) (holding_of hbytes ?_ ?_)
    · exact fun _ _ => by rw [hacc.memory]
    · exact fun _ _ => by rw [hacc.swap]

/-- What a process writes to a page, it sees there. -/
theorem view_put_page {offset : Nat} (hfits : offset + bytes.length ≤ k.memory.pageSize) :
    bytesAt (k.view (stored.put pid (v * k.memory.pageSize + offset) bytes) q)
        (w * k.memory.pageSize) k.memory.pageSize =
      if q = pid ∧ w = v then Bytes.overwrite
        (bytesAt (k.view stored q) (w * k.memory.pageSize) k.memory.pageSize) offset bytes
      else bytesAt (k.view stored q) (w * k.memory.pageSize) k.memory.pageSize := by
  rw [view_put]
  by_cases hq : q = pid
  · subst hq
    rw [if_pos rfl]
    by_cases hw : w = v
    · subst hw
      rw [if_pos ⟨rfl, rfl⟩, bytesAt_writeAt_within (by omega) (by omega), Nat.add_sub_cancel_left]
    · rw [if_neg fun hqw => hw hqw.2]
      have hapart : w * k.memory.pageSize + k.memory.pageSize ≤ v * k.memory.pageSize ∨
          v * k.memory.pageSize + k.memory.pageSize ≤ w * k.memory.pageSize := Bytes.unit_apart hw
      refine bytesAt_writeAt_apart (hapart.imp (fun hlow => ?_) fun hhigh => ?_)
      · exact Nat.le_trans hlow (Nat.le_add_right _ _)
      · rw [Nat.add_assoc]
        exact Nat.le_trans (Nat.add_le_add_left hfits _) hhigh
  · rw [if_neg hq, if_neg fun hqw => hq hqw.1]

/-- A write replaces content of the page that is written, and of no other. -/
theorem Accessed.holding {offset : Nat} {now : Bytes} (hacc : Accessed pins pid v f true k k')
    (hfits : offset + bytes.length ≤ k.memory.pageSize) (he : k.residency.page? q w = some e)
    (hnow : holding content
      { k' with memory := k.memory.patch (f * k.memory.pageSize + offset) bytes } e.state = some now) :
    ∃ old, k.holding content e.state = some old ∧
      now = if q = pid ∧ w = v then Bytes.overwrite old offset bytes else old := by
  obtain ⟨e₀, he₀, hs₀, -⟩ := hacc.page
  have hk := hacc.sound_before
  have hpage : e.state ≠ .resident f → ¬ (q = pid ∧ w = v) := by
    rintro hs ⟨rfl, rfl⟩
    cases he₀.symm.trans he
    exact hs hs₀
  cases hs : e.state with
  | absent =>
    rw [hs] at hnow
    cases hnow
  | swapped s =>
    rw [hs] at hnow
    refine ⟨_, rfl, ?_⟩
    rw [if_neg (hpage (by simp [hs])), ← hacc.swap]
    exact (Option.some.inj hnow).symm
  | resident g =>
    rw [hs] at hnow
    refine ⟨_, rfl, (Option.some.inj hnow).symm.trans ?_⟩
    change (k.memory.patch _ bytes).frameBytes g = _
    rw [PhysicalMemory.frameBytes_patch hk.memory hacc.frame_lt hfits]
    by_cases hg : g = f
    · subst hg
      rw [if_pos rfl, if_pos (hk.frames.unique he₀ hs₀ he hs)]
    · rw [if_neg hg, if_neg (hpage fun heq => hg (PageState.resident.inj (hs.symm.trans heq)))]

theorem Faithful.wrote {offset : Nat} (h : Faithful content stored k)
    (hacc : Accessed pins pid v f true k k') (hsome : 0 < bytes.length)
    (hfits : offset + bytes.length ≤ k.memory.pageSize) :
    Faithful content (stored.put pid (v * k.memory.pageSize + offset) bytes)
      { k' with memory := k.memory.patch (f * k.memory.pageSize + offset) bytes } where
  inMemory := by
    have himages := h.inMemory
    rw [← hacc.stays.keeps.images] at himages
    exact himages
  tracked := h.tracked.wrote hacc hsome hfits
  page := by
    intro q w e' now he' hfit hnow
    obtain ⟨e, he, hstate⟩ := hacc.state he'
    rw [← hstate] at hnow
    obtain ⟨old, hold, rfl⟩ := hacc.holding hfits he hnow
    obtain rfl := h.page he ((fits_congr hacc.program?).1 hfit) hold
    refine ((congrArg (fun view => bytesAt view _ _) ?_).trans (view_put_page hfits)).symm
    exact view_congr hacc.program?

/-- Without processes there is no content. -/
theorem Faithful.of_nil (h : k.residency.processes = []) (hmem : ∀ s ∈ k.images, s.InMemory) :
    Faithful content (fun _ _ => none) k where
  inMemory := hmem
  tracked := .of_nil h
  page he := by cases (Residency.page?_of_nil h).symm.trans he

theorem carried_faithful : Carried (arrayConduct content) pins (Faithful content) where
  step hstep h := h.step hstep
  read hacc h := h.read hacc
  wrote hacc hsome hfits h := h.wrote hacc hsome hfits

/-- A process reads what it sees. -/
theorem Course.saw (h : Course (arrayConduct content) pins k log k')
    (hfaithful : Faithful content stored k) (hwords : Bytes.wordSize ∣ k.memory.pageSize)
    (hpid : pid < k.residency.nextPid) (hfits : k.Fits pid)
    (hlog : ∀ a ∈ log, a.pid = pid ∧ a.write = false) :
    ∀ a ∈ log, a.bytes = bytesAt (k.view stored pid) a.vaddr a.bytes.length := by
  induction h with
  | start => simp
  | step _ _ ih => exact ih hlog
  | @read log k₁ k₂ q v f offset len hcourse hacc hin ih =>
    have hearlier : ∀ a ∈ log, a.pid = pid ∧ a.write = false :=
      fun a ha => hlog a (List.mem_append_left _ ha)
    intro a ha
    rcases List.mem_append.1 ha with hold | hnew
    · exact ih hearlier a hold
    · obtain rfl := List.mem_singleton.1 hnew
      obtain rfl : q = pid := (hlog _ ha).1
      obtain ⟨e, he, hs, -⟩ := hacc.page
      obtain ⟨p, hp, -⟩ := Residency.page?_eq_some_iff.1 he
      have hsame : k₁.program? q = k.program? q :=
        hcourse.program? hpid (Residency.outline?_of_process hp)
      have hfaithful₁ := hcourse.carries carried_faithful hwords hfaithful
      rw [Stored.after_of_reads fun a ha => (hearlier a ha).2] at hfaithful₁
      have hframe : k₁.memory.frameBytes f = _ :=
        hfaithful₁.page he ((fits_congr hsame).2 hfits) (by rw [hs]; rfl)
      dsimp only
      rw [hframe, slice_bytesAt hin, view_congr hsame, length_bytesAt]
  | wrote => cases (hlog _ (List.mem_append_right _ List.mem_cons_self)).2
  | spilled hcourse hsmall =>
    rw [hcourse.same.pageSize] at hsmall
    exact absurd hwords hsmall

/-- Pieces that are each what is seen there, are so as a whole. -/
theorem accesses_saw {view : Nat → UInt8} {write : Bool} {start : Nat} {pieces : List Bytes}
    (h : ∀ a ∈ accesses pid write start pieces, a.bytes = bytesAt view a.vaddr a.bytes.length) :
    pieces.flatten = bytesAt view start pieces.flatten.length := by
  induction pieces generalizing start with
  | nil => rfl
  | cons piece rest ih =>
    have hfirst : piece = bytesAt view start piece.length := h _ List.mem_cons_self
    have hrest := ih fun a ha => h a (List.mem_cons_of_mem _ ha)
    rw [List.flatten_cons, List.length_append, ← bytesAt_append, ← hfirst, ← hrest]

end Kernel

end DemandPaging
