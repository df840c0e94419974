/-
  Which pages have been changed.

  What a process has written to a page, the image of the page does not have.  Such a page is in
  swap, or in a frame with a mark on it: the `dirty` bit of its entry or of a copy in the TLB, or
  the flag that it has come back from swap (`PageEntry.changed`).  The mark moves as copies leave
  the TLB, as the page leaves its frame and as it comes back, but no step makes one or loses one
  (`Step.traced`); a write makes one, for its page only (`Accessed.traced`).

  * `History.dirtyTracked`: the pages that have been written are those that are marked, so that
    none of them is dropped, and the others have no part in what is swapped.
-/
import DemandPaging.Proofs.History
import DemandPaging.Proofs.SlotOwners

namespace DemandPaging

variable {copies copies' more : List Mapping} {e e' : PageEntry} {f g : Frame} {s : SlotIndex}

/-! ## Marks -/

/-- The content of the page is not that of its image. -/
def PageEntry.changed (copies : List Mapping) (e : PageEntry) : Bool :=
  match e.state with
  | .absent => false
  | .resident f => e.needsSwap || dirtyIn copies f
  | .swapped _ => true

/-- A page that has no content of its own has not come back from swap. -/
def PageEntry.Blank (e : PageEntry) : Prop := e.state = .absent → e.swapBacked = false

/-- The entry `e'` of a page is marked if `e` is, and is as blank. -/
structure PageEntry.Inherits (copies copies' : List Mapping) (e e' : PageEntry) : Prop where
  readOnly : e'.readOnly = e.readOnly
  changed : e'.changed copies' = e.changed copies
  blank : e.Blank → e'.Blank

namespace PageEntry

theorem changed_resident (hs : e.state = .resident f) :
    e.changed copies = (e.needsSwap || dirtyIn copies f) := by
  rw [changed, hs]

theorem changed_absent (hs : e.state = .absent) : e.changed copies = false := by
  rw [changed, hs]

theorem changed_swapped (hs : e.state = .swapped s) : e.changed copies = true := by
  rw [changed, hs]

/-- Copies count for pages in frames only. -/
theorem changed_congr (hbits : ∀ f, e.state = .resident f → dirtyIn copies' f = dirtyIn copies f) :
    e.changed copies' = e.changed copies := by
  unfold changed
  split
  · rfl
  · next f hs => rw [hbits f hs]
  · rfl

theorem blank_of_resident (hs : e.state = .resident f) : e.Blank := by
  intro habsent
  cases hs.symm.trans habsent

namespace Inherits

theorem of_copies (hbits : ∀ f, e.state = .resident f → dirtyIn copies' f = dirtyIn copies f) :
    Inherits copies copies' e e :=
  ⟨rfl, changed_congr hbits, id⟩

/-- The mark of a copy that is written back is the entry's then. -/
theorem absorb (hbits : ∀ f, e.state = .resident f →
      (e.dirty || dirtyIn (more ++ copies') f) = (e.dirty || dirtyIn copies f)) :
    Inherits copies copies' e (e.absorb more) where
  readOnly := readOnly_absorb
  changed := by
    cases hs : e.state with
    | resident f =>
      have hbit := hbits f hs
      rw [dirtyIn_append, ← Bool.or_assoc] at hbit
      rw [changed_resident hs, changed_resident (state_absorb.trans hs), absorb_resident hs,
        needsSwap, needsSwap]
      dsimp only
      rw [Bool.or_right_comm, hbit, Bool.or_right_comm]
    | absent =>
      have hnot : ∀ f, e.state ≠ .resident f := (by simp [hs])
      rw [absorb_of_not_resident hnot, changed_absent hs, changed_absent hs]
    | swapped s =>
      have hnot : ∀ f, e.state ≠ .resident f := (by simp [hs])
      rw [absorb_of_not_resident hnot, changed_swapped hs, changed_swapped hs]
  blank hblank habsent := by
    rw [swapBacked_absorb]
    exact hblank (state_absorb.symm.trans habsent)

/-- The `used` bit is no mark. -/
theorem of_cold (h : e'.cold = e.cold) : Inherits copies copies e e' := by
  obtain ⟨vpn, state, readOnly, used, dirty, swapBacked⟩ := e
  obtain ⟨vpn', state', readOnly', used', dirty', swapBacked'⟩ := e'
  simp only [cold, PageEntry.mk.injEq, true_and] at h
  obtain ⟨rfl, rfl, rfl, rfl, rfl⟩ := h
  exact ⟨rfl, rfl, id⟩

/-- A page without marks may be dropped. -/
theorem dropped (hs : e.state = .resident f) (hneeds : e.needsSwap = false)
    (hout : dirtyIn copies f = false) : Inherits copies copies e (e.evicted .absent) where
  readOnly := rfl
  changed := by rw [changed_resident hs, hneeds, hout, changed_absent rfl, Bool.or_self]
  blank _ _ := (Bool.or_eq_false_iff.1 hneeds).2

/-- A page with a mark goes to swap. -/
theorem saved (hs : e.state = .resident f) (hneeds : e.needsSwap = true) :
    Inherits copies copies e (e.evicted (.swapped s)) where
  readOnly := rfl
  changed := by rw [changed_resident hs, hneeds, changed_swapped rfl, Bool.true_or]
  blank _ := by simp [Blank, evicted]

/-- A page that comes back from swap is flagged, one that comes from its image is clean. -/
theorem loaded (hblank : e.Blank) (hs : ∀ g, e.state ≠ .resident g)
    (hout : dirtyIn copies f = false) : Inherits copies copies e (e.loaded f) where
  readOnly := rfl
  changed := by
    rw [changed_resident rfl, hout, Bool.or_false]
    cases hstate : e.state with
    | resident g => exact absurd hstate (hs g)
    | absent =>
      rw [changed_absent hstate]
      simp [needsSwap, PageEntry.loaded, hblank hstate, hstate, PageState.isSwapped]
    | swapped s =>
      rw [changed_swapped hstate]
      simp [needsSwap, PageEntry.loaded, hstate, PageState.isSwapped]
  blank _ := blank_of_resident rfl

end Inherits

end PageEntry

namespace Kernel

variable {σ : Type} {c : Conduct σ} {pins : Frame → Nat} {k k' k₁ : Kernel σ} {pid q : Pid}
  {v w : Vpn} {stored : Stored} {write : Bool}

/-! ## Steps and accesses -/

/-- Where the entry of a page comes from: the page was there, marked as it is now, or is new and
    has no mark. -/
inductive Traced (k : Kernel σ) (copies : List Mapping) (q : Pid) (w : Vpn) (e' : PageEntry) :
    Prop where
  | kept {e : PageEntry} (he : k.residency.page? q w = some e)
    (hsame : e.Inherits k.tlb.mappings copies e')
  | made (hnew : k.residency.nextPid ≤ q) (hclean : e'.changed copies = false) (hblank : e'.Blank)

/-- The entry of one page is replaced. -/
theorem Traced.of_link {e₁ : PageEntry} {i : FrameInfo} (he : k.residency.page? pid v = some e)
    (hsame : e.Inherits k.tlb.mappings k.tlb.mappings e')
    (he₁ : (k.residency.link pid v e' f i).page? q w = some e₁) :
    k.Traced k.tlb.mappings q w e₁ := by
  rw [Residency.page?_link he] at he₁
  split at he₁
  · next hqw =>
    obtain ⟨rfl, rfl⟩ := hqw
    cases he₁
    exact .kept he hsame
  · exact .kept he₁ (.of_copies fun _ _ => rfl)

theorem Step.traced (h : Step c pins k k')
    (hblank : ∀ q w e, k.residency.page? q w = some e → e.Blank)
    (he' : k'.residency.page? q w = some e') : k.Traced k'.tlb.mappings q w e' := by
  have hsame : k.residency.page? q w = some e' → k.Traced k.tlb.mappings q w e' :=
    fun he => .kept he (.of_copies fun _ _ => rfl)
  cases h with
  | settled h _ hbits =>
    rw [Residency.page?_absorb] at he'
    obtain ⟨e, he, rfl⟩ := Option.map_eq_some_iff.1 he'
    exact .kept he (.absorb fun f hs => (hbits he hs).2)
  | swept _ hswept =>
    obtain ⟨e, he, hcold⟩ := hswept.cools.page?_of_some he'
    exact .kept he (.of_cold hcold)
  | counted => exact hsame he'
  | pooled => exact hsame (Residency.page?_frames.symm.trans he')
  | @vacated _ f _ _ _ _ _ he hs _ hout hvac =>
    have hclean : dirtyIn k.tlb.mappings f = false := by
      refine bitIn_eq_false fun m hm hv => ?_
      obtain ⟨slot, hslot, rfl⟩ := List.mem_map.1 hm
      exact hout slot hslot hv
    cases hvac with
    | dropped hneeds => exact .of_link he (.dropped hs hneeds hclean) he'
    | saved hneeds => exact .of_link he (.saved hs hneeds) he'
    | refused => exact hsame he'
  | loaded h _ _ he hs hfetch _ =>
    obtain ⟨_, _, rfl, -⟩ := hfetch.rest
    exact .of_link he (.loaded (hblank _ _ _ he) hs h.bits_loose.2) he'
  | returned _ _ _ hfetch =>
    obtain ⟨_, _, rfl, -⟩ := hfetch.rest
    exact hsame (Residency.page?_frames.symm.trans he')
  | spawned _ hspawn =>
    cases hspawn with
    | refused => exact hsame he'
    | made =>
      rcases Residency.page?_addProcess he' with hold | ⟨rfl, -, hnew⟩
      · exact hsame hold
      · rw [hnew]
        exact .made (Nat.le_refl _) (PageEntry.changed_absent rfl) fun _ => rfl
  | @exited _ pid _ h hexit =>
    cases hexit with
    | missing => exact hsame he'
    | again => exact hsame he'
    | ended =>
      have hbits : ∀ f, e'.state = .resident f → dirtyIn k.tlb.mappings f =
          dirtyIn (k.tlb.takeOwnedBy pid).2.mappings f :=
        fun f hs => h.bit_finished (b := (·.dirty)) he' hs
      have hfinish := Residency.page?_finish.symm.trans he'
      split at hfinish
      · cases hfinish
      · exact .kept hfinish (.of_copies fun f hs => (hbits f hs).symm)
  | forgotten _ hgone => exact hsame ((Residency.page?_dropProcess hgone).symm.trans he')

/-- A hit through a slot adds a mark to its frame, if it is a write. -/
theorem dirtyIn_touched {i : Nat} {slot : TlbSlot} (hslot : k.tlb.slots[i]? = some slot)
    (hv : slot.mapping.valid = true) : dirtyIn (k.touched i slot write).tlb.mappings g =
      (dirtyIn k.tlb.mappings g || (write && decide (slot.mapping.ppn = g))) := by
  let m : Mapping := { slot.mapping with used := true, dirty := slot.mapping.dirty || write }
  have hgained : dirtyIn (k.touched i slot write).tlb.mappings g =
      dirtyIn (k.tlb.mappings ++ [m]) g := by
    refine Tlb.bit_gained (b := (·.dirty)) hslot fun hbit => ?_
    simp_all [bitIn]
  have hold : slot.mapping.ppn = g → slot.mapping.dirty = true →
      dirtyIn k.tlb.mappings g = true := by
    intro hg hd
    have hmem : slot.mapping ∈ k.tlb.mappings :=
      List.mem_map.2 ⟨slot, List.mem_of_getElem? hslot, rfl⟩
    exact List.any_eq_true.2 ⟨slot.mapping, hmem, by simp [hv, hg, hd]⟩
  have hnew : dirtyIn [m] g =
      (slot.mapping.ppn == g && (slot.mapping.dirty || write)) := by
    simp [dirtyIn, m, hv]
  rw [hgained, dirtyIn_append, hnew]
  by_cases hg : slot.mapping.ppn = g
  · cases hd : slot.mapping.dirty with
    | false => simp [hg]
    | true => simp [hold hg hd]
  · simp [hg]

/-- A read makes no mark, and a write only that of its page. -/
theorem Accessed.traced (h : Accessed pins pid v f write k k')
    (he' : k'.residency.page? q w = some e') : ∃ e, k.residency.page? q w = some e ∧
      e'.readOnly = e.readOnly ∧ (e.Blank → e'.Blank) ∧ e'.changed k'.tlb.mappings =
        (e.changed k.tlb.mappings || (write && decide (q = pid ∧ w = v))) := by
  have hk := h.sound_before
  obtain ⟨e₀, he₀, hs₀, -⟩ := h.page
  have helse : ∀ {e}, k.residency.page? q w = some e → (∀ g, e.state ≠ .resident g) →
      ¬ (q = pid ∧ w = v) := by
    rintro e he hs ⟨rfl, rfl⟩
    cases he₀.symm.trans he
    exact hs f hs₀
  cases h with
  | @hit i slot _ hslot hv ho hvpn hppn hwrite =>
    subst hppn
    refine ⟨e', he', rfl, id, ?_⟩
    cases hs : e'.state with
    | resident g =>
      have hpage : slot.mapping.ppn = g ↔ q = pid ∧ w = v := by
        constructor
        · rintro rfl
          exact hk.frames.unique he₀ hs₀ he' hs
        · rintro ⟨rfl, rfl⟩
          cases he₀.symm.trans he'
          exact PageState.resident.inj (hs₀.symm.trans hs)
      rw [PageEntry.changed_resident hs, PageEntry.changed_resident hs, dirtyIn_touched hslot hv,
        ← Bool.or_assoc, decide_eq_decide.2 hpage]
    | absent =>
      rw [PageEntry.changed_absent hs, PageEntry.changed_absent hs,
        decide_eq_false (helse he' (by simp [hs])), Bool.and_false, Bool.or_false]
    | swapped s =>
      rw [PageEntry.changed_swapped hs, PageEntry.changed_swapped hs, Bool.true_or]
  | @marked e _ he hs hwrite =>
    rw [referenced, Residency.page?_link he] at he'
    split at he'
    · next hqw =>
      cases he'
      obtain ⟨rfl, rfl⟩ := hqw
      refine ⟨e, he, rfl, fun _ => PageEntry.blank_of_resident hs, ?_⟩
      have htouch : (e.touch write).state = .resident f := hs
      rw [PageEntry.changed_resident hs, PageEntry.changed_resident htouch]
      simp only [PageEntry.needsSwap, PageEntry.touch, referenced, and_self, decide_true,
        Bool.and_true]
      ac_rfl
    · next hqw =>
      refine ⟨e', he', rfl, id, ?_⟩
      rw [decide_eq_false hqw, Bool.and_false, Bool.or_false]
      rfl

/-! ## The pages written are those marked -/

/-- What processes have stored is in the pages that are marked. -/
structure Tracked (stored : Stored) (k : Kernel σ) : Prop where
  changed : ∀ {pid v e}, k.residency.page? pid v = some e →
    (e.changed k.tlb.mappings = true ↔ stored.Written k.memory.pageSize pid v)
  readOnly : ∀ {pid v e}, k.residency.page? pid v = some e → e.readOnly = true →
    ¬ stored.Written k.memory.pageSize pid v
  blank : ∀ {pid v e}, k.residency.page? pid v = some e → e.Blank
  /-- Processes to come have stored nothing. -/
  ahead : ∀ {pid a}, k.residency.nextPid ≤ pid → stored pid a = none

theorem Tracked.not_written (h : k.Tracked stored) (hnext : k.residency.nextPid ≤ pid) :
    ¬ stored.Written k.memory.pageSize pid v := by
  rintro ⟨a, -, hsome⟩
  rw [h.ahead hnext] at hsome
  cases hsome

/-- Without processes there is nothing to track. -/
theorem Tracked.of_nil (h : k.residency.processes = []) : k.Tracked fun _ _ => none := by
  have hnopage : ∀ {pid v e}, k.residency.page? pid v ≠ some e := fun he => by
    cases (Residency.page?_of_nil h).symm.trans he
  exact ⟨fun he => absurd he hnopage, fun he => absurd he hnopage, fun he => absurd he hnopage,
    fun _ => rfl⟩

theorem Tracked.step (h : k.Tracked stored) (hstep : Step c pins k k') : k'.Tracked stored := by
  have hsize := hstep.same.pageSize
  have htraced : ∀ {q w e'}, k'.residency.page? q w = some e' →
      k.Traced k'.tlb.mappings q w e' := fun he' => hstep.traced (fun _ _ _ he => h.blank he) he'
  constructor
  · intro q w e' he'
    rw [hsize]
    cases htraced he' with
    | kept he hsame =>
      rw [hsame.changed]
      exact h.changed he
    | made hnew hclean =>
      rw [hclean]
      exact iff_of_false (by simp) (h.not_written hnew)
  · intro q w e' he' hro
    rw [hsize]
    cases htraced he' with
    | kept he hsame => exact h.readOnly he (hsame.readOnly.symm.trans hro)
    | made hnew _ => exact h.not_written hnew
  · intro q w e' he'
    cases htraced he' with
    | kept he hsame => exact hsame.blank (h.blank he)
    | made _ _ hblank => exact hblank
  · intro q a hq
    exact h.ahead (Nat.le_trans hstep.nextPid_le hq)

theorem Tracked.read (h : k.Tracked stored) (hacc : Accessed pins pid v f false k k') :
    k'.Tracked stored := by
  have hsize := hacc.stays.keeps.pageSize
  constructor
  · intro q w e' he'
    obtain ⟨e, he, -, -, hchanged⟩ := hacc.traced he'
    rw [hsize, hchanged, Bool.false_and, Bool.or_false]
    exact h.changed he
  · intro q w e' he' hro
    obtain ⟨e, he, hsame, -, -⟩ := hacc.traced he'
    rw [hsize]
    exact h.readOnly he (hsame.symm.trans hro)
  · intro q w e' he'
    obtain ⟨e, he, -, hblank, -⟩ := hacc.traced he'
    exact hblank (h.blank he)
  · intro q a hq
    exact h.ahead (hacc.nextPid ▸ hq)

/-- A write marks the page that it writes. -/
theorem Tracked.wrote {offset : Nat} {bytes : Bytes} (h : k.Tracked stored)
    (hacc : Accessed pins pid v f true k k') (hsome : 0 < bytes.length)
    (hfits : offset + bytes.length ≤ k.memory.pageSize) {address : Nat} :
    Tracked (stored.put pid (v * k.memory.pageSize + offset) bytes)
      { k' with memory := k.memory.patch address bytes } := by
  obtain ⟨e₀, he₀, -, hwrite⟩ := hacc.page
  constructor
  · intro q w e' he'
    obtain ⟨e, he, -, -, hchanged⟩ := hacc.traced he'
    refine (iff_of_eq (congrArg (· = true) hchanged)).trans ?_
    refine Iff.trans ?_ (Stored.written_put hsome hfits).symm
    rw [Bool.true_and, Bool.or_eq_true, decide_eq_true_eq, h.changed he, or_comm]
  · intro q w e' he' hro hwritten
    obtain ⟨e, he, hsame, -, -⟩ := hacc.traced he'
    rcases (Stored.written_put hsome hfits).1 hwritten with ⟨rfl, rfl⟩ | hold
    · cases he₀.symm.trans he
      cases (hwrite rfl).symm.trans (hsame.symm.trans hro)
    · exact h.readOnly he (hsame.symm.trans hro) hold
  · intro q w e' he'
    obtain ⟨e, he, -, hblank, -⟩ := hacc.traced he'
    exact hblank (h.blank he)
  · intro q a hq
    obtain ⟨p, hp, -, -⟩ := Residency.page?_eq_some_iff.1 he₀
    have hlt := Residency.lt_nextPid hp
    have hq' : k.residency.nextPid ≤ q := hacc.nextPid ▸ hq
    have hne : ¬ (q = pid ∧ v * k.memory.pageSize + offset ≤ a) :=
      fun hpid => Nat.not_lt.2 hq' (hpid.1 ▸ hlt)
    rw [Stored.put, if_neg hne]
    exact h.ahead hq'

theorem carried_tracked : Carried c pins (Tracked (σ := σ)) where
  step hstep h := h.step hstep
  read hacc h := h.read hacc
  wrote hacc hsome hfits h := h.wrote hacc hsome hfits

/-! ## Transfers -/

/-- What transfers of pages in `P`, and the freeing of slots, make of a swap area. -/
inductive Transfers (c : Conduct σ) (P : SlotOwner → Prop) (swap : SwapSpace σ) :
    SwapSpace σ → Prop where
  | start : Transfers c P swap swap
  | out {s s' : SwapSpace σ} {o : SlotOwner} {page : Bytes} {r : Except StoreError SlotIndex}
    (h : Transfers c P swap s) (ho : P o) (hout : SwapSpace.SwappedOut c o page s r s') :
    Transfers c P swap s'
  | back {s s' : SwapSpace σ} {o : SlotOwner} {t : SlotIndex} {r : Except StoreError Bytes}
    (h : Transfers c P swap s) (ho : P o) (hslot : s.slots.owner t = some o)
    (hin : SwapSpace.SwappedIn c t s r s') : Transfers c P swap s'
  | freed {s : SwapSpace σ} {slots : SlotTable} (h : Transfers c P swap s)
    (hslots : ∀ t o, slots.owner t = some o → s.slots.owner t = some o) :
    Transfers c P swap { s with slots }

theorem Transfers.mono {P P' : SlotOwner → Prop} {s s' : SwapSpace σ} (h : Transfers c P s s')
    (hP : ∀ o, P o → P' o) : Transfers c P' s s' := by
  induction h with
  | start => exact .start
  | out _ ho hout ih => exact ih.out (hP _ ho) hout
  | back _ ho hslot hin ih => exact ih.back (hP _ ho) hslot hin
  | freed _ hslots ih => exact ih.freed hslots

/-- A page that is fetched from swap has been written. -/
theorem Tracked.fetched {p : Process} {e : PageEntry} {r : Except PagingError Bytes}
    {s : SwapSpace σ} {loose : Option Frame} (h : k.Tracked stored) (hk : k.Sound pins loose)
    (he : k.residency.page? pid v = some e) (hfetch : Fetched c p e k r k')
    (hs : Transfers c (fun o => stored.Written k.memory.pageSize o.pid o.vpn) s k.swap) :
    Transfers c (fun o => stored.Written k.memory.pageSize o.pid o.vpn) s k'.swap := by
  cases hfetch with
  | @swapped t _ _ hstate hswap =>
    have hwritten := (h.changed he).1 (PageEntry.changed_swapped hstate)
    have howner : k.swap.slots.owner t = some ⟨pid, v⟩ :=
      hk.slots t pid v (by rw [he, Option.map_some, hstate])
    exact hs.back hwritten howner hswap
  | image => exact hs
  | zero => exact hs

/-- A page that a step moves to swap, or back, has been written. -/
theorem Tracked.transfers {s : SwapSpace σ} (h : k.Tracked stored) (hstep : Step c pins k k')
    (hs : Transfers c (fun o => stored.Written k.memory.pageSize o.pid o.vpn) s k.swap) :
    Transfers c (fun o => stored.Written k.memory.pageSize o.pid o.vpn) s k'.swap := by
  cases hstep with
  | settled => exact hs
  | swept => exact hs
  | counted => exact hs
  | pooled => exact hs
  | @vacated _ f pid v e _ _ he hstate _ _ hvac =>
    have hwritten : e.needsSwap = true → stored.Written k.memory.pageSize pid v := fun hneeds =>
      (h.changed he).1 (by rw [PageEntry.changed_resident hstate, hneeds, Bool.true_or])
    cases hvac with
    | dropped => exact hs
    | saved hneeds hswap => exact hs.out (hwritten hneeds) hswap
    | refused hneeds hswap => exact hs.out (hwritten hneeds) hswap
  | loaded hk _ _ he _ hfetch _ =>
    have hback := h.fetched hk he hfetch hs
    exact hback
  | returned hk _ he hfetch =>
    have hback := h.fetched hk he hfetch hs
    exact hback
  | spawned _ hspawn => cases hspawn <;> exact hs
  | exited hk hexit =>
    cases hexit with
    | missing => exact hs
    | again => exact hs
    | ended _ _ _ hrel =>
      refine hs.freed fun t o ho => ?_
      have ho' := SlotTable.owner_deallocateOwnedBy.symm.trans ho
      exact hrel.owner_eq_some (Option.filter_eq_some_iff.1 ho').1
  | forgotten => exact hs

/-- Tracking, and what the swap area has become since it was `swap`. -/
theorem carried_transfers {swap : SwapSpace σ} : Carried c pins fun stored k => k.Tracked stored ∧
    Transfers c (fun o => stored.Written k.memory.pageSize o.pid o.vpn) swap k.swap where
  step hstep h := ⟨h.1.step hstep, hstep.same.pageSize ▸ h.1.transfers hstep h.2⟩
  read hacc h := ⟨h.1.read hacc, hacc.stays.keeps.pageSize ▸ hacc.swap ▸ h.2⟩
  wrote hacc hsome hfits h := by
    refine ⟨h.1.wrote hacc hsome hfits, hacc.swap ▸ h.2.mono fun _ ho => ?_⟩
    exact (Stored.written_put hsome hfits).2 (.inr ho)

/-! ## What holds of every page -/

/-- The TLB holds a copy of the mapping of page `v` of process `pid` that has its `dirty` bit on. -/
def DirtyCopy (k : Kernel σ) (pid : Pid) (v : Vpn) : Prop :=
  ∃ slot ∈ k.tlb.slots, slot.mapping.valid = true ∧ slot.owner = some pid ∧
    slot.mapping.vpn = v ∧ slot.mapping.dirty = true

theorem Sound.dirtyIn_iff {e : PageEntry} (h : k.Sound pins none)
    (he : k.residency.page? pid v = some e) (hs : e.state = .resident f) :
    dirtyIn k.tlb.mappings f = true ↔ k.DirtyCopy pid v := by
  constructor
  · intro hdirty
    obtain ⟨m, hm, hbits⟩ := List.any_eq_true.1 hdirty
    simp only [Bool.and_eq_true, beq_iff_eq] at hbits
    obtain ⟨⟨hv, rfl⟩, hd⟩ := hbits
    obtain ⟨slot, hslot, rfl⟩ := List.mem_map.1 hm
    obtain ⟨q, ho, e', he', hs', -⟩ := h.tlb.tagged hslot hv
    obtain ⟨rfl, hvpn⟩ := h.frames.unique he hs he' hs'
    exact ⟨slot, hslot, hv, ho, hvpn, hd⟩
  · rintro ⟨slot, hslot, hv, ho, rfl, hd⟩
    obtain ⟨e', he', hs', -⟩ := h.tlb.backs hslot hv ho
    cases he.symm.trans he'
    obtain rfl := PageState.resident.inj (hs.symm.trans hs')
    exact List.any_eq_true.2 ⟨slot.mapping, List.mem_map.2 ⟨slot, hslot, rfl⟩, by simp [hv, hd]⟩

/-- A page is marked where it is in swap, and where a bit or a flag says so. -/
theorem Sound.changed_iff {e : PageEntry} (h : k.Sound pins none)
    (he : k.residency.page? pid v = some e) : e.changed k.tlb.mappings = true ↔
      (∃ s, e.state = .swapped s) ∨ ∃ f, e.state = .resident f ∧
        (e.dirty = true ∨ e.swapBacked = true ∨ k.DirtyCopy pid v) := by
  cases hs : e.state with
  | absent => simp [PageEntry.changed_absent hs]
  | swapped s => simp [PageEntry.changed_swapped hs]
  | resident f =>
    rw [PageEntry.changed_resident hs, ← h.dirtyIn_iff he hs]
    simp [PageEntry.needsSwap, or_assoc]

theorem swept_states {victim : Option (Frame × Pid)} {r : Residency}
    (hswept : Residency.SweptTo pins k.harvested.residency victim r) :
    ((k.swept r).residency.page? q w).map (·.state) =
      (k.residency.page? q w).map (·.state) :=
  hswept.cools.states.trans Residency.states_absorb

/-- Up to the page that has to leave, no page moves. -/
theorem Chosen.states {e : PageEntry} {r : Residency} (hchosen : Chosen pins k f pid v e r) :
    (((k.swept r).shotDown f).residency.page? q w).map (·.state) =
      (k.residency.page? q w).map (·.state) :=
  Residency.states_absorb.trans (swept_states hchosen.swept)

/-- An eviction writes nothing to swap if a page that has not been written is its victim. -/
theorem Tracked.evicted {e : PageEntry} {r : Except PagingError Frame} (h : k.Tracked stored)
    (hk : k.Sound pins none) (hwords : Bytes.wordSize ∣ k.memory.pageSize)
    (he : k.residency.page? pid v = some e) (hclean : ¬ stored.Written k.memory.pageSize pid v)
    (hall : Allocated c pins k r k') :
    (k'.residency.page? pid v).map (·.state) = some e.state ∨
      (k'.residency.page? pid v).map (·.state) = some .absent ∧ k'.swap = k.swap := by
  have hstate : (k.residency.page? pid v).map (·.state) = some e.state := by
    rw [he, Option.map_some]
  cases hall with
  | pooled => exact .inl ((congrArg _ Residency.page?_frames).trans hstate)
  | noVictim _ _ hswept => exact .inl ((swept_states hswept).trans hstate)
  | refused hchosen hvac =>
    cases hvac with
    | refused => exact .inl (hchosen.states.trans hstate)
  | @taken f q w e₁ r _ hchosen hvac =>
    have hcourse : Course c pins k [] ((k.swept r).shotDown f) :=
      (hchosen.steps hk).course
    have htracked : ((k.swept r).shotDown f).Tracked stored :=
      hcourse.carries carried_tracked hwords h
    have hother : ¬ (pid = q ∧ v = w) → ∀ {state swap},
        ((((k.swept r).shotDown f).withoutPage f q w e₁ state swap).residency.page? pid v).map
          (·.state) = some e.state := by
      intro hne state swap
      rw [residency_withoutPage, Residency.page?_link hchosen.page, if_neg hne]
      exact hchosen.states.trans hstate
    cases hvac with
    | dropped hneeds =>
      by_cases hvictim : pid = q ∧ v = w
      · obtain ⟨rfl, rfl⟩ := hvictim
        refine .inr ⟨?_, rfl⟩
        rw [residency_withoutPage, Residency.page?_link_self hchosen.page]
        rfl
      · exact .inl (hother hvictim)
    | saved hneeds =>
      refine .inl (hother ?_)
      rintro ⟨rfl, rfl⟩
      refine hclean ((htracked.changed hchosen.page).1 ?_)
      rw [PageEntry.changed_resident hchosen.state, hneeds, Bool.true_or]

section Theorem

variable [BackingStore σ]

/-- The pages that have been written are known, and the others have no part in swapping. -/
structure DirtyTracked (stored : Stored) (k : Kernel σ) : Prop where
  written : ∀ {pid p v e}, k.residency.process? pid = some p → p.exited = false →
    p.table.find? v = some e → (stored.Written k.pageSize pid v ↔
      (∃ s, e.state = .swapped s) ∨ ∃ f, e.state = .resident f ∧
        (e.dirty = true ∨ e.swapBacked = true ∨ k.DirtyCopy pid v))
  /-- No page that has been written is dropped. -/
  kept : ∀ {pid p v e}, k.residency.process? pid = some p → p.exited = false →
    p.table.find? v = some e → stored.Written k.pageSize pid v → e.state ≠ .absent
  readOnly : ∀ {pid p v e}, k.residency.process? pid = some p → p.exited = false →
    p.table.find? v = some e → e.readOnly = true → ¬ stored.Written k.pageSize pid v
  /-- No slot holds a page that has not been written. -/
  unslotted : ∀ {pid v s}, ¬ stored.Written k.pageSize pid v →
    k.swap.slots.owner s ≠ some ⟨pid, v⟩
  /-- Taking a frame for a fault leaves such a page where it is, or drops it and writes nothing
      to swap. -/
  evicted : ∀ {pid p v e r k'}, k.residency.process? pid = some p → p.exited = false →
    p.table.find? v = some e → ¬ stored.Written k.pageSize pid v →
    allocateFrame.run.run k = .ok (r, k') →
    (k'.residency.page? pid v).map (·.state) = some e.state ∨
      (k'.residency.page? pid v).map (·.state) = some .absent ∧ k'.swap = k.swap
  /-- Such a page is fetched without a look at swap, whatever has become of the kernel. -/
  fetched : ∀ {pid p v e r} {k₁ k' : Kernel σ}, k.residency.process? pid = some p → p.exited = false →
    p.table.find? v = some e → ¬ stored.Written k.pageSize pid v →
    (fetch p e).run.run k₁ = .ok (r, k') → k'.swap = k₁.swap
  /-- A request moves pages between memory and swap that have been written in the end, and no
      others. -/
  transfers : ∀ {request reply k'}, (perform request).run.run k = .ok (reply, k') →
    Transfers (.any σ) (fun o => (k.storedBy stored request reply).Written k.pageSize o.pid o.vpn)
      k.swap k'.swap

/-- The content of a page that is not in swap comes from its image, or is all zeroes. -/
theorem ends_fetch_unswapped {p : Process} {e : PageEntry} (hs : ∀ s, e.state ≠ .swapped s) :
    Ends (fun _ => True) (fetch (σ := σ) p e).run k fun _ k' => k'.swap = k.swap := by
  unfold fetch loadImagePage onSection
  rw [ends_bind, ends_get]
  dsimp only
  cases hstate : e.state with
  | swapped s => exact absurd hstate (hs s)
  | resident f => exact ends_lift.2 trivial
  | absent =>
    dsimp only
    simp only [ends_bind, ends_lift, ends_ite, ends_get]
    refine Checked.ends_of_forall fun exe => Checked.ends_of_forall fun n => ⟨fun _ => ?_, fun _ => rfl⟩
    refine Checked.ends_of_forall fun exe => Checked.ends_of_forall fun j => ?_
    cases j.bind (p.executable[·]?) with
    | none => rfl
    | some sectionId =>
      dsimp only
      rw [ends_bind, ends_get]
      dsimp only
      cases k.sections[sectionId]? with
      | none => exact ends_lift.2 trivial
      | some s =>
        refine ends_within.2 (Ends.imp ends_self fun _ _ _ => ?_)
        rfl

theorem History.tracked (h : History stored k) (hsize : Bytes.wordSize ≤ k.pageSize) :
    k.Tracked stored :=
  h.carries Conduct.any_holds carried_tracked (h.words hsize) Tracked.of_nil

/-- The pages that have been written are those in swap or marked as changed, after whatever
    requests, on whatever store. -/
theorem History.dirtyTracked (h : History stored k) (hsize : Bytes.wordSize ≤ k.pageSize) :
    k.DirtyTracked stored := by
  have htracked := h.tracked hsize
  obtain ⟨hsound, htlb⟩ := h.sound
  have hpage : ∀ {pid p v e}, k.residency.process? pid = some p → p.exited = false →
      p.table.find? v = some e → k.residency.page? pid v = some e := by
    intro pid p v e hp hlive he
    rw [Residency.page?_of_process hp (hsound.registered hp hlive), he]
  have hwritten : ∀ {pid p v e}, k.residency.process? pid = some p → p.exited = false →
      p.table.find? v = some e → (stored.Written k.pageSize pid v ↔ e.changed k.tlb.mappings = true) :=
    fun hp hlive he => (htracked.changed (hpage hp hlive he)).symm
  constructor
  · intro pid p v e hp hlive he
    rw [hwritten hp hlive he, hsound.changed_iff (hpage hp hlive he)]
  · intro pid p v e hp hlive he hw habsent
    rw [hwritten hp hlive he, PageEntry.changed_absent habsent] at hw
    cases hw
  · intro pid p v e hp hlive he hro
    exact htracked.readOnly (hpage hp hlive he) hro
  · intro pid v s hclean howner
    obtain ⟨e, he, hs⟩ := Option.map_eq_some_iff.1 (h.reachable.exact s pid v howner)
    exact hclean ((htracked.changed he).1 (PageEntry.changed_swapped hs))
  · intro pid p v e r k' hp hlive he hclean hrun
    have hall := (ends_allocateFrame (c := .any σ) Conduct.any_holds hsound
      fun _ _ hall => hall).of_run hrun
    exact htracked.evicted hsound (h.words hsize) (hpage hp hlive he) hclean hall
  · intro pid p v e r k₁ k' hp hlive he hclean hrun
    have hs : ∀ s, e.state ≠ .swapped s := fun s hswapped =>
      hclean ((hwritten hp hlive he).2 (PageEntry.changed_swapped hswapped))
    exact (ends_fetch_unswapped hs).of_run hrun
  · intro request reply k' hrun
    obtain ⟨log, hcourse, haccounts⟩ := h.course Conduct.any_holds hrun
    have hdone := hcourse.carries carried_transfers (h.words hsize) ⟨htracked, .start⟩
    rw [hcourse.same.pageSize, (haccounts (h.words hsize)).after] at hdone
    exact hdone.2

/-- Two pages take turns in the only frame: the one that was written is in swap, the other is
    clean. -/
theorem History.dirtyTracked_of_swap : ∃ (stored : Stored) (k : Kernel MemoryStore),
    Bytes.wordSize ≤ k.pageSize ∧ stored 1 0 = some 7 ∧
      (k.residency.page? 1 0).map (·.state) = some (.swapped 0) ∧
      (k.residency.page? 1 1).map (·.state) = some (.resident 0) ∧ k.DirtyTracked stored := by
  have hrun : (boot 4 { physPages := 1, tlbSize := 1, stackPages := 2 } ({} : MemoryStore) [] [] >>=
      fun k => (perform (.spawn [])).run.run k >>= fun r₁ =>
        (perform (.process 1 (.storeByte 0 7))).run.run r₁.2 >>= fun r₂ =>
          (perform (.process 1 (.loadByte 4))).run.run r₂.2 >>= fun r₃ =>
            .ok (r₂.1.toOption, r₃.1.toOption, r₃.2.pageSize,
              (r₃.2.residency.page? 1 0).map (·.state),
              (r₃.2.residency.page? 1 1).map (·.state))).toOption =
        some (some .done, some (.byte 0), 4, some (.swapped 0), some (.resident 0)) := by
    decide +kernel
  obtain ⟨k, hboot, hrun⟩ := Checked.exists_of_toOption_bind hrun
  obtain ⟨⟨r₁, k₁⟩, hspawn, hrun⟩ := Checked.exists_of_toOption_bind hrun
  obtain ⟨⟨r₂, k₂⟩, hstore, hrun⟩ := Checked.exists_of_toOption_bind hrun
  obtain ⟨⟨r₃, k₃⟩, hload, hrun⟩ := Checked.exists_of_toOption_bind hrun
  have hall := Option.some.inj hrun
  simp only [Prod.mk.injEq] at hall
  obtain ⟨hdone, hbyte, hsize, hswapped, hresident⟩ := hall
  have hlarge : Bytes.wordSize ≤ k₃.pageSize := by
    rw [hsize]
    exact Nat.le_refl 4
  have hhistory := ((History.fresh hboot).step hspawn).step hstore |>.step hload
  refine ⟨_, k₃, hlarge, ?_, hswapped, hresident, History.dirtyTracked hhistory hlarge⟩
  cases r₂ with
  | error e => cases hdone
  | ok reply =>
    cases hdone
    cases r₃ with
    | error e => cases hbyte
    | ok reply =>
      cases hbyte
      rfl

end Theorem

end Kernel

end DemandPaging
