/-
  A kernel sees no more of a directory than its swap file.

  Take a kernel that swaps to a file of a directory, and one that swaps to the same bytes by
  themselves.  As long as nobody else writes to the file, they give the same answers
  (`Stands.perform`), whatever becomes of the rest of the directory (`Stands.elsewhere`).
-/
import DemandPaging.Proofs.Files
import DemandPaging.Proofs.Independence

namespace DemandPaging

theorem Carries.id {σ : Type} [BackingStore σ] : Carries (id : σ → σ) where
  read _ _ _ := follows_self
  write _ _ _ := follows_self

namespace Kernel

variable {files files' : HostFiles} {file : SwapFile} {k k' : Kernel FileStore}
  {lone lone' : Kernel (LoneFile none)} {request : Request} {reply : Except PagingError Reply}

theorem settle_congr {σ τ : Type} {t t' : σ → τ} {k : Kernel σ}
    (h : t k.swap.store = t' k.swap.store) : k.settle t = k.settle t' := by
  unfold settle SwapSpace.mapStore
  rw [h]

/-- The handle of the swap file. -/
def swapFile (k : Kernel FileStore) : SwapFile := k.swap.store.file

/-- The kernel, as it finds the directory. -/
def within (files : HostFiles) (k : Kernel FileStore) : Kernel FileStore :=
  { k with swap := { k.swap with store := ⟨files, k.swapFile⟩ } }

theorem Sound.within {pins : Frame → Nat} {loose : Option Frame} (h : k.Sound pins loose) :
    (k.within files).Sound pins loose :=
  ⟨h.frames, h.tlb, h.slots, h.memory, h.numFrames, h.swapSize, h.physPages, h.divisible, h.laid⟩

/-- A kernel in a directory, and one by itself, with the same bytes in their swap files. -/
structure Stands (files : HostFiles) (k : Kernel FileStore) (lone : Kernel (LoneFile none)) : Prop where
  sound : ∃ pins, k.Sound pins none
  tlb : 0 < k.tlb.slots.length
  sound_lone : ∃ pins, lone.Sound pins none
  tlb_lone : 0 < lone.tlb.slots.length
  capacity : k.swapFile.capacity = none
  inside : k.swapFile.node < files.contents.length
  /-- They are alike but for the TLB. -/
  settled : (k.within files).settle id = lone.settle (LoneFile.among files k.swapFile)

theorem Stands.content (h : Stands files k lone) :
    files.content k.swapFile.node = lone.swap.store.bytes := by
  have hstore : (⟨files, k.swapFile⟩ : FileStore) =
      ⟨files.setContent k.swapFile.node lone.swap.store.bytes, k.swapFile⟩ :=
    congrArg (fun k => k.swap.store) h.settled
  have hfiles : files = files.setContent k.swapFile.node lone.swap.store.bytes :=
    congrArg FileStore.files hstore
  rw [hfiles]
  exact HostFiles.content_setContent_self h.inside

/-- What becomes of other files does not matter. -/
theorem Stands.elsewhere (h : Stands files k lone)
    (hinside : k.swapFile.node < files'.contents.length)
    (hcontent : files'.content k.swapFile.node = files.content k.swapFile.node) :
    Stands files' k lone := by
  refine ⟨h.sound, h.tlb, h.sound_lone, h.tlb_lone, h.capacity, hinside, ?_⟩
  have hfiles : files'.setContent k.swapFile.node lone.swap.store.bytes = files' := by
    rw [← h.content, ← hcontent, HostFiles.setContent_content]
  have hamong : (⟨files', k.swapFile⟩ : FileStore) =
      LoneFile.among files' k.swapFile lone.swap.store :=
    congrArg (fun files => FileStore.mk files k.swapFile) hfiles.symm
  calc
    (k.within files').settle id = Kernel.within files' ((k.within files).settle id) := rfl
    _ = Kernel.within files' (lone.settle (LoneFile.among files k.swapFile)) := by rw [h.settled]
    _ = lone.settle fun _ => ⟨files', k.swapFile⟩ := rfl
    _ = lone.settle (LoneFile.among files' k.swapFile) := settle_congr hamong

/-- The kernel, on the bytes of its swap file alone. -/
def alone (files : HostFiles) (k : Kernel FileStore) : Kernel (LoneFile none) where
  config := k.config
  memory := k.memory
  residency := k.residency
  swap := k.swap.mapStore fun _ => ⟨files.content k.swapFile.node⟩
  tlb := k.tlb
  choices := k.choices
  sections := k.sections
  pageFaults := k.pageFaults
  evictions := k.evictions

theorem Stands.of_sound {pins : Frame → Nat} (h : k.Sound pins none) (htlb : 0 < k.tlb.slots.length)
    (hcapacity : k.swapFile.capacity = none) (hinside : k.swapFile.node < files.contents.length) :
    Stands files k (k.alone files) := by
  have halone : (k.alone files).Sound pins none :=
    ⟨h.frames, h.tlb, h.slots, h.memory, h.numFrames, h.swapSize, h.physPages, h.divisible, h.laid⟩
  refine ⟨⟨pins, h⟩, htlb, ⟨pins, halone⟩, htlb, hcapacity, hinside, ?_⟩
  have hsettled : (k.alone files).settle (LoneFile.among files k.swapFile) =
      (k.alone files).settle fun _ => ⟨files, k.swapFile⟩ := settle_congr LoneFile.among_self
  rw [hsettled]
  rfl

/-! ## Start -/

section Start

variable {σ τ : Type} {pageSize : Nat} {config : Config} {store : σ} {store' : τ}
  {sections : List Section} {picks : List Nat}

/-- Whether a kernel starts does not depend on the store. -/
theorem exists_boot {k : Kernel σ} (hk : boot pageSize config store sections picks = .ok k) :
    ∃ k', boot pageSize config store' sections picks = .ok k' := by
  obtain ⟨hmemory, hframes, htlb⟩ := boot_parts hk
  unfold boot
  rw [hmemory, hframes, htlb]
  exact ⟨_, rfl⟩

theorem store_of_boot {k : Kernel σ} (hk : boot pageSize config store sections picks = .ok k) :
    k.swap.store = store := by
  obtain ⟨hmemory, hframes, htlb⟩ := boot_parts hk
  unfold boot at hk
  rw [hmemory, hframes, htlb] at hk
  exact congrArg (fun k : Kernel σ => k.swap.store) (Except.ok.inj hk).symm

end Start

theorem Stands.start {pageSize : Nat} {config : Config} {sections : List Section}
    {picks : List Nat} (hk : boot pageSize config ⟨files, file⟩ sections picks = .ok k)
    (hlone : boot pageSize config ⟨files.content file.node⟩ sections picks = .ok lone)
    (hcapacity : file.capacity = none) (hinside : file.node < files.contents.length) :
    Stands files k lone := by
  obtain ⟨hsound, htlb⟩ := (Checked.ends_of_eq_ok hk).1 ends_boot
  obtain ⟨hsound', htlb'⟩ := (Checked.ends_of_eq_ok hlone).1 ends_boot
  have hfile : k.swapFile = file := by rw [swapFile, store_of_boot hk]
  have hfiles : k.swap.store.files = files := by rw [store_of_boot hk]
  have hwithin : k.within files = k := by
    rw [← hfiles]
    rfl
  refine ⟨⟨_, hsound⟩, htlb, ⟨_, hsound'⟩, htlb', hfile ▸ hcapacity, hfile ▸ hinside, ?_⟩
  rw [hwithin, hfile]
  have hstore : id (⟨files, file⟩ : FileStore) =
      LoneFile.among files file (⟨files.content file.node⟩ : LoneFile none) :=
    LoneFile.among_self.symm
  exact settle_boot hstore hk hlone

/-! ## Requests -/

section Requests

variable {σ : Type}

/-- A request that is answered leaves a kernel sound. -/
theorem Sound.answered [BackingStore σ] {k k' : Kernel σ} {pins : Frame → Nat}
    (h : k.Sound pins none) (htlb : 0 < k.tlb.slots.length)
    (hrun : (Kernel.perform request).run.run k = .ok (reply, k')) :
    k'.Sound pins none ∧ 0 < k'.tlb.slots.length := by
  have hdone : Ends (fun _ => True) (Kernel.perform request).run k fun _ k' =>
      Continues pins k k' :=
    ends_perform .any h htlb (fun _ => .inr trivial) (fun _ _ => .any) fun _ _ =>
      Checked.ends_true fun _ _ => trivial
  have hnext := hdone.of_run hrun
  exact ⟨hnext.sound, hnext.same.tlbSize ▸ htlb⟩

end Requests

/-- The machine without a TLB does what both do. -/
theorem Stands.agree (h : Stands files k lone) (request : Request) :
    (fun r => (r.1, r.2.settle id)) <$> (Kernel.perform request).run.run (k.within files) =
      (fun r => (r.1, r.2.settle (LoneFile.among files k.swapFile))) <$>
        (Kernel.perform request).run.run lone := by
  obtain ⟨pins, hsound⟩ := h.sound
  obtain ⟨pins', hsound'⟩ := h.sound_lone
  have hk : Tracks (settle id) id (Kernel.perform request) (directPerform request)
      (k.within files) := follows_perform Carries.id hsound.within h.tlb
  have hlone : Tracks (settle (LoneFile.among files k.swapFile)) id (Kernel.perform request)
      (directPerform request) lone :=
    follows_perform (LoneFile.carries h.capacity h.inside) hsound' h.tlb_lone
  have hid : (Except.map id : Except PagingError Reply → _) = id := by
    funext r
    cases r <;> rfl
  have hagree := hk.agree hlone h.settled
  rwa [hid] at hagree

/-- Both give the same answer, or stop with the same violation. -/
theorem Stands.answers (h : Stands files k lone) (request : Request) :
    Prod.fst <$> (Kernel.perform request).run.run (k.within files) =
      Prod.fst <$> (Kernel.perform request).run.run lone := by
  have hagree := congrArg (fun c : Checked _ => Prod.fst <$> c) (h.agree request)
  rwa [Functor.map_map, Functor.map_map] at hagree

/-- After an answer they stand as before, and no other file has changed. -/
theorem Stands.perform (h : Stands files k lone)
    (hrun : (Kernel.perform request).run.run (k.within files) = .ok (reply, k')) :
    ∃ lone', (Kernel.perform request).run.run lone = .ok (reply, lone') ∧
      Stands k'.swap.store.files k' lone' ∧ k'.swapFile = k.swapFile ∧
        k'.swap.store.files = files.setContent k.swapFile.node lone'.swap.store.bytes := by
  have hagree := h.agree request
  rw [hrun] at hagree
  cases hlone : (Kernel.perform request).run.run lone with
  | error v =>
    rw [hlone] at hagree
    cases hagree
  | ok r =>
    obtain ⟨reply', lone'⟩ := r
    rw [hlone] at hagree
    obtain ⟨rfl, hsettled⟩ := Prod.mk.inj (Except.ok.inj hagree)
    obtain ⟨pins, hsound⟩ := h.sound
    obtain ⟨pins', hsound'⟩ := h.sound_lone
    have hwithin : (k.within files).Sound pins none := hsound.within
    obtain ⟨hnext, htlb⟩ := hwithin.answered h.tlb hrun
    obtain ⟨hnext', htlb'⟩ := hsound'.answered h.tlb_lone hlone
    have hstore : k'.swap.store = ⟨files.setContent k.swapFile.node lone'.swap.store.bytes,
        k.swapFile⟩ := congrArg (fun k => k.swap.store) hsettled
    have hfile : k'.swapFile = k.swapFile := by rw [swapFile, hstore]
    have hfiles : k'.swap.store.files =
        files.setContent k.swapFile.node lone'.swap.store.bytes := by rw [hstore]
    refine ⟨lone', rfl, ⟨⟨pins, hnext⟩, htlb, ⟨pins', hnext'⟩, htlb', ?_, ?_, ?_⟩, hfile, hfiles⟩
    · exact hfile ▸ h.capacity
    · rw [hfile, hfiles, HostFiles.length_contents_setContent]
      exact h.inside
    · change k'.settle id = _
      refine hsettled.trans (settle_congr ?_)
      rw [LoneFile.among, LoneFile.among, hfile, hfiles, HostFiles.setContent_setContent]

end Kernel

end DemandPaging
