/-
  Writing TLB copies back.

  Copies put their `used` and `dirty` bits into the entry of the page in their frame, and
  into the record of the frame.  `absorb` does this for all pages and frames at once, and
  `reconcileAll_eq` says that writing copies back one by one comes to the same.

  * `Residency.map` changes all entries and all records;
  * `Backs` is what a copy needs in order to be written back.
-/
import DemandPaging.Proofs.Coherence

namespace DemandPaging

/-! ## Changing all entries -/

/-- Every entry changed by `c`. -/
def PageTable.map (c : PageEntry → PageEntry) (table : PageTable) : PageTable :=
  ⟨table.entries.map c⟩

/-- The process with every entry changed by `c`. -/
def Process.map (c : PageEntry → PageEntry) (p : Process) : Process :=
  { p with table := p.table.map c }

theorem PageTable.find?_map {c : PageEntry → PageEntry} {table : PageTable} {v : Vpn} :
    (table.map c).find? v = (table.find? v).map c := by
  rw [find?_eq, find?_eq, PageTable.map, Row.toList_map, List.getElem?_map]

theorem PageTable.map_set {c : PageEntry → PageEntry} {table : PageTable} {v : Vpn}
    {e : PageEntry} : (table.set v e).map c = (table.map c).set v (c e) := by
  simp only [PageTable.map, PageTable.set, Row.map_set]

theorem Process.outline_map {c : PageEntry → PageEntry} {p : Process}
    (hro : ∀ e, (c e).readOnly = e.readOnly) : (p.map c).outline = p.outline := by
  simp only [outline, Process.map, PageTable.map, Row.toList_map, List.map_map,
    Process.Outline.mk.injEq, true_and]
  exact List.map_congr_left fun e _ => hro e

namespace Residency

variable {pins : Frame → Nat} {loose : Option Frame} {r : Residency} {pid q : Pid} {v w : Vpn}
  {e e' : PageEntry} {f g : Frame} {i : FrameInfo} {c : PageEntry → PageEntry}
  {d : FrameInfo → FrameInfo}

/-- Every entry changed by `c`, and the record of every frame by `d`. -/
def map (c : PageEntry → PageEntry) (d : FrameInfo → FrameInfo) (r : Residency) : Residency where
  frames := { r.frames with frames := r.frames.frames.map d }
  hand := r.hand
  processes := r.processes.map (·.map (·.map c))

theorem process?_map : (r.map c d).process? pid = (r.process? pid).map (·.map c) := by
  cases pid with
  | zero => rfl
  | succ n =>
    simp only [process?, map, List.getElem?_map]
    rcases r.processes[n]? with _ | _ | p <;> rfl

theorem page?_map : (r.map c d).page? pid v = (r.page? pid v).map c := by
  unfold page? table?
  rw [process?_map]
  cases hp : r.process? pid with
  | none => rfl
  | some p =>
    have hreg : (p.map c).registered = p.registered := rfl
    cases h : p.registered with
    | false => simp [Option.filter, hreg, h]
    | true =>
      simp only [Option.map_some, Option.filter, hreg, h, if_true, Option.bind_some]
      exact PageTable.find?_map

theorem info?_map : (r.map c d).frames.info? f = (r.frames.info? f).map d := by
  rw [FrameTable.info?_eq, FrameTable.info?_eq, map, Row.toList_map, List.getElem?_map]

theorem outline?_map (hro : ∀ e, (c e).readOnly = e.readOnly) :
    (r.map c d).outline? pid = r.outline? pid := by
  unfold outline?
  rw [process?_map, Option.map_map]
  exact congrArg (fun h => (r.process? pid).map h) (funext fun p => Process.outline_map hro)

@[simp] theorem nextPid_map : (r.map c d).nextPid = r.nextPid := by simp [nextPid, map]

@[simp] theorem pool_map : (r.map c d).frames.pool = r.frames.pool := rfl

@[simp] theorem size_map : (r.map c d).frames.size = r.frames.size := by
  simp [map, FrameTable.size]

theorem map_map {c' : PageEntry → PageEntry} {d' : FrameInfo → FrameInfo} :
    (r.map c d).map c' d' = r.map (c' ∘ c) (d' ∘ d) := by
  simp only [map, Row.map_map, List.map_map, Residency.mk.injEq, true_and]
  refine List.map_congr_left fun o _ => ?_
  cases o with
  | none => rfl
  | some p => simp only [Function.comp, Option.map_some, Process.map, PageTable.map, Row.map_map]

theorem map_congr {c' : PageEntry → PageEntry} {d' : FrameInfo → FrameInfo}
    (hc : ∀ {q p w e}, r.process? q = some p → p.table.find? w = some e → c e = c' e)
    (hd : ∀ {g j}, r.frames.info? g = some j → d j = d' j) : r.map c d = r.map c' d' := by
  have hframes : r.frames.frames.map d = r.frames.frames.map d' :=
    Row.map_congr fun j hj => by
      obtain ⟨g, hg⟩ := FrameTable.mem_frames_iff.1 hj
      exact hd hg
  simp only [map, hframes, Residency.mk.injEq, true_and]
  refine List.map_congr_left fun o ho => ?_
  cases o with
  | none => rfl
  | some p =>
    obtain ⟨n, hn⟩ := List.mem_iff_getElem?.1 ho
    have hp : r.process? (n + 1) = some p := by rw [process?, hn, Option.join_some]
    have hentries : p.table.entries.map c = p.table.entries.map c' :=
      Row.map_congr fun e he => by
        obtain ⟨w, hw⟩ := List.mem_iff_getElem?.1 he
        exact hc hp (PageTable.find?_eq.trans hw)
    simp only [Option.map_some, Process.map, PageTable.map, hentries]

/-- Changes that only matter for one page and one frame replace their entry and record. -/
theorem map_eq_link (hi : r.frames.info? f = some i) (he : r.page? pid v = some e)
    (hc : ∀ {q p w e₁}, r.process? q = some p → p.table.find? w = some e₁ →
      ¬ (q = pid ∧ w = v) → c e₁ = e₁)
    (hd : ∀ {g j}, r.frames.info? g = some j → g ≠ f → d j = j) :
    r.map c d = r.link pid v (c e) f (d i) := by
  obtain ⟨p, hp, -, hpv⟩ := page?_eq_some_iff.1 he
  obtain _ | n := pid
  · cases hp
  have hframes : r.frames.frames.map d = (r.frames.put f (d i)).frames :=
    Row.map_eq_set (FrameTable.info?_eq ▸ hi) fun hj hg => hd (FrameTable.info?_eq.trans hj) hg
  have hother : ∀ {m : Nat} {p' : Process}, r.processes[m]? = some (some p') → m ≠ n →
      p'.map c = p' := by
    intro m p' hm hne
    have hp' : r.process? (m + 1) = some p' := by rw [process?, hm, Option.join_some]
    have hrow : p'.table.entries.map c = p'.table.entries := Row.map_eq_self fun e₁ he₁ => by
      obtain ⟨w, hw⟩ := List.mem_iff_getElem?.1 he₁
      exact hc hp' (PageTable.find?_eq.trans hw) fun hqw => hne (Nat.succ.inj hqw.1)
    simp only [Process.map, PageTable.map, hrow]
  have hself : p.map c = { p with table := p.table.set v (c e) } := by
    have hrow : p.table.entries.map c = p.table.entries.set v (c e) :=
      Row.map_eq_set (PageTable.find?_eq ▸ hpv) fun hw hne =>
        hc hp (PageTable.find?_eq.trans hw) fun hqw => hne hqw.2
    simp only [Process.map, PageTable.map, PageTable.set, hrow]
  simp only [map, link, setEntry, updateProcess, Residency.mk.injEq, true_and]
  refine ⟨by rw [hframes]; rfl, List.ext_getElem? fun m => ?_⟩
  rw [List.getElem?_map, List.getElem?_modify]
  by_cases hm : n = m
  · subst hm
    rw [Option.join_eq_some_iff.1 hp]
    simp [hself]
  · cases hp' : r.processes[m]? with
    | none => rfl
    | some o =>
      cases o with
      | none => simp
      | some p' => simp [hm, hother hp' (Ne.symm hm)]

/-- An entry after the change is what the change made of one before. -/
theorem page?_map_eq_some (h : (r.map c d).page? pid v = some e') :
    ∃ e, r.page? pid v = some e ∧ e' = c e := by
  rw [page?_map] at h
  obtain ⟨e, he, rfl⟩ := Option.map_eq_some_iff.1 h
  exact ⟨e, he, rfl⟩

/-- Changes that keep what a page is and where it is keep processes well formed. -/
theorem Formed.map (h : r.Formed) (hstate : ∀ e, (c e).state = e.state)
    (hvpn : ∀ e, (c e).vpn = e.vpn) (hro : ∀ e, (c e).readOnly = e.readOnly)
    (hclean : ∀ {pid v e}, r.page? pid v = some e → (c e).readOnly = true → (c e).dirty = false) :
    (r.map c d).Formed := by
  refine ⟨?_, ?_, ?_, ?_, ?_⟩
  · intro q w e' he'
    obtain ⟨e, he, rfl⟩ := page?_map_eq_some he'
    rw [hvpn, h.numbered he]
  · intro q w e' he' hr
    obtain ⟨e, he, rfl⟩ := page?_map_eq_some he'
    exact hclean he hr
  · intro q o ho
    rw [outline?_map hro] at ho
    exact h.live ho
  · intro q o ho
    rw [outline?_map hro] at ho
    exact h.sized ho
  · intro q p hp hreg e he
    rw [process?_map] at hp
    obtain ⟨p₀, hp₀, rfl⟩ := Option.map_eq_some_iff.1 hp
    rw [Process.map, PageTable.map, Row.toList_map] at he
    obtain ⟨e₀, he₀, rfl⟩ := List.mem_map.1 he
    rw [hstate, h.gone hp₀ hreg e₀ he₀]

/-- Changes that keep what a page is and where it is, and that change the record of a
    frame as they change the entry of its page, keep frames and pages in agreement. -/
theorem Coherent.map (h : r.Coherent pins none) (hstate : ∀ e, (c e).state = e.state)
    (hvpn : ∀ e, (c e).vpn = e.vpn) (hro : ∀ e, (c e).readOnly = e.readOnly)
    (hclean : ∀ {pid v e}, r.page? pid v = some e → (c e).readOnly = true → (c e).dirty = false)
    (hhold : ∀ {pid v e f n}, r.page? pid v = some e → e.state = .resident f →
      d (.holding pid e n) = .holding pid (c e) n)
    (hidle : ∀ {i}, i.owner = none → i.mapping = {} → d i = i) :
    (r.map c d).Coherent pins none := by
  -- A page is in the frame that it was in.
  have hback : ∀ {q w e₁ g}, (r.map c d).page? q w = some e₁ → e₁.state = .resident g →
      ∃ e, r.page? q w = some e ∧ e.state = .resident g ∧ e₁ = c e := by
    intro q w e₁ g he₁ hs₁
    obtain ⟨e, he, rfl⟩ := page?_map_eq_some he₁
    exact ⟨e, he, (hstate e).symm.trans hs₁, rfl⟩
  have husable : (r.map c d).frames.usable = r.frames.usable := congrArg (· % limit32) size_map
  refine coherent_iff.2 ⟨h.toFormed.map hstate hvpn hro hclean, fun g _ => ?_, by simp, ?_⟩
  · have hat : r.CoherentAt pins g := h.atFrame (by simp)
    cases hj : r.frames.info? g with
    | none =>
      have hnone : (r.map c d).frames.info? g = none := by rw [info?_map, hj, Option.map_none]
      refine .missing hnone (fun he₁ hs₁ => ?_) fun hmem => ?_
      · obtain ⟨e, he, hs, -⟩ := hback he₁ hs₁
        cases hj.symm.trans (hat.resident he hs)
      · cases hj.symm.trans (hat.pooled hmem)
    | some j =>
      have hsome : (r.map c d).frames.info? g = some (d j) := by
        rw [info?_map, hj, Option.map_some]
      obtain ⟨q, e, he, hs, rfl⟩ | ⟨rfl, hpool⟩ := hat.held_or_unowned hj
      · rw [hhold he hs] at hsome
        refine .held hsome ?_ ((hstate e).trans hs) (fun he₁ hs₁ => ?_) (h.notMem_pool he hs)
          (husable ▸ h.frame_lt he hs)
        · rw [page?_map, hvpn, h.numbered he, he, Option.map_some]
        · obtain ⟨e₂, he₂, hs₂, rfl⟩ := hback he₁ hs₁
          obtain ⟨rfl, rfl⟩ := h.unique he hs he₂ hs₂
          cases he.symm.trans he₂
          exact ⟨rfl, rfl⟩
      · rw [hidle rfl rfl] at hsome
        refine .unowned hsome (fun he₁ hs₁ => ?_) (husable ▸ hpool)
          fun hle => hat.pins_eq_zero hj (husable ▸ hle)
        obtain ⟨e, he, hs, -⟩ := hback he₁ hs₁
        cases hj.symm.trans (hat.resident he hs)
  · rw [size_map]
    exact h.hand_lt

end Residency

/-! ## Absorbing copies -/

/-- Some copy of the mapping to frame `f` has its `used` bit on. -/
def usedIn (copies : List Mapping) (f : Frame) : Bool :=
  copies.any fun m => m.valid && m.ppn == f && m.used

/-- Some copy of the mapping to frame `f` has its `dirty` bit on. -/
def dirtyIn (copies : List Mapping) (f : Frame) : Bool :=
  copies.any fun m => m.valid && m.ppn == f && m.dirty

/-- The entry of a resident page with the bits of all copies added. -/
def PageEntry.absorb (copies : List Mapping) (e : PageEntry) : PageEntry :=
  match e.state with
  | .resident f => { e with used := e.used || usedIn copies f, dirty := e.dirty || dirtyIn copies f }
  | _ => e

/-- A valid mapping with the bits of all copies added. -/
def Mapping.absorb (copies : List Mapping) (m : Mapping) : Mapping :=
  if m.valid then
    { m with used := m.used || usedIn copies m.ppn, dirty := m.dirty || dirtyIn copies m.ppn }
  else m

/-- The record of a frame with the bits of all copies added to its mapping. -/
def FrameInfo.absorb (copies : List Mapping) (i : FrameInfo) : FrameInfo :=
  { i with mapping := i.mapping.absorb copies }

/-- All copies written back. -/
def Residency.absorb (r : Residency) (copies : List Mapping) : Residency :=
  r.map (PageEntry.absorb copies) (FrameInfo.absorb copies)

section Absorb

variable {copies more : List Mapping} {e : PageEntry} {m : Mapping} {f : Frame}

@[simp] theorem usedIn_append : usedIn (copies ++ more) f = (usedIn copies f || usedIn more f) :=
  List.any_append

@[simp] theorem dirtyIn_append :
    dirtyIn (copies ++ more) f = (dirtyIn copies f || dirtyIn more f) :=
  List.any_append

@[simp] theorem PageEntry.state_absorb : (e.absorb copies).state = e.state := by
  unfold PageEntry.absorb; split <;> rfl

@[simp] theorem PageEntry.vpn_absorb : (e.absorb copies).vpn = e.vpn := by
  unfold PageEntry.absorb; split <;> rfl

@[simp] theorem PageEntry.readOnly_absorb : (e.absorb copies).readOnly = e.readOnly := by
  unfold PageEntry.absorb; split <;> rfl

@[simp] theorem PageEntry.swapBacked_absorb : (e.absorb copies).swapBacked = e.swapBacked := by
  unfold PageEntry.absorb; split <;> rfl

theorem PageEntry.absorb_resident (hs : e.state = .resident f) :
    e.absorb copies =
      { e with used := e.used || usedIn copies f, dirty := e.dirty || dirtyIn copies f } := by
  rw [PageEntry.absorb, hs]

theorem PageEntry.absorb_of_not_resident (hs : ∀ f, e.state ≠ .resident f) :
    e.absorb copies = e := by
  unfold PageEntry.absorb
  split
  · next f hf => exact absurd hf (hs f)
  · rfl

theorem PageEntry.mapping_absorb : (e.absorb copies).mapping = e.mapping.absorb copies := by
  cases h : e.state with
  | resident f =>
    rw [absorb_resident h]
    simp [PageEntry.mapping, Mapping.absorb, PageEntry.isValid, PageEntry.frame, h]
  | absent =>
    rw [absorb_of_not_resident (by simp [h])]
    simp [PageEntry.mapping, Mapping.absorb, PageEntry.isValid, PageEntry.frame, h]
  | swapped s =>
    rw [absorb_of_not_resident (by simp [h])]
    simp [PageEntry.mapping, Mapping.absorb, PageEntry.isValid, PageEntry.frame, h]

theorem PageEntry.absorb_absorb : (e.absorb copies).absorb more = e.absorb (copies ++ more) := by
  cases h : e.state with
  | resident f =>
    rw [absorb_resident (e := e.absorb copies) (f := f) (by simpa using h), absorb_resident h,
      absorb_resident h]
    simp [Bool.or_assoc]
  | absent => simp only [PageEntry.absorb, h]
  | swapped s => simp only [PageEntry.absorb, h]

theorem FrameInfo.absorb_absorb (i : FrameInfo) :
    (i.absorb copies).absorb more = i.absorb (copies ++ more) := by
  unfold FrameInfo.absorb Mapping.absorb
  cases h : i.mapping.valid <;> simp [h, Bool.or_assoc]

theorem PageEntry.absorb_nil : PageEntry.absorb [] = id := by
  funext e
  unfold PageEntry.absorb
  split
  · simp [usedIn, dirtyIn]
  · rfl

theorem FrameInfo.absorb_nil : FrameInfo.absorb [] = id := by
  funext i
  unfold FrameInfo.absorb Mapping.absorb
  split
  · simp [usedIn, dirtyIn]
  · rfl

theorem FrameInfo.absorb_of_invalid {i : FrameInfo} (h : i.mapping.valid = false) :
    i.absorb copies = i := by
  unfold FrameInfo.absorb Mapping.absorb
  rw [h]
  rfl

theorem FrameInfo.absorb_holding {pid : Pid} {n : Nat} :
    (FrameInfo.holding pid e n).absorb copies = .holding pid (e.absorb copies) n := by
  unfold FrameInfo.absorb FrameInfo.holding
  rw [PageEntry.mapping_absorb]

end Absorb

namespace Residency

variable {pins : Frame → Nat} {r : Residency} {pid q : Pid} {v w : Vpn} {e : PageEntry}
  {copies more : List Mapping} {m : Mapping} {f : Frame}

/-- The mapping `m` of process `pid` leads to the frame of the page, is read-only if the page
    is, and is clean then. -/
def Backs (r : Residency) (pid : Pid) (m : Mapping) : Prop :=
  ∃ e, r.page? pid m.vpn = some e ∧ e.state = .resident m.ppn ∧ m.readOnly = e.readOnly ∧
    (m.readOnly = true → m.dirty = false)

/-- Every valid copy is backed by a page of some process. -/
def BacksAll (r : Residency) (copies : List Mapping) : Prop :=
  ∀ m ∈ copies, m.valid = true → ∃ pid, r.Backs pid m

/-- An entry belongs to a registered process, or its page has no content. -/
theorem Formed.page?_or_absent {p : Process} (h : r.Formed) (hp : r.process? q = some p)
    (he : p.table.find? w = some e) : r.page? q w = some e ∨ e.state = .absent := by
  cases hreg : p.registered with
  | true => exact .inl ((page?_of_process hp hreg).trans he)
  | false =>
    rw [PageTable.find?_eq] at he
    exact .inr (h.gone hp hreg e (List.mem_of_getElem? he))

theorem page?_absorb : (r.absorb copies).page? pid v = (r.page? pid v).map (·.absorb copies) :=
  page?_map

/-- Writing copies back moves no page. -/
theorem states_absorb :
    ((r.absorb copies).page? pid v).map (·.state) = (r.page? pid v).map (·.state) := by
  rw [page?_absorb, Option.map_map]
  exact congrArg (fun c => (r.page? pid v).map c) (funext fun _ => PageEntry.state_absorb)

theorem absorb_absorb : (r.absorb copies).absorb more = r.absorb (copies ++ more) := by
  unfold absorb
  rw [map_map]
  congr 1
  · exact funext fun e => PageEntry.absorb_absorb
  · exact funext FrameInfo.absorb_absorb

/-- A page keeps backing its copies as long as it stays where it is. -/
theorem Backs.link {e' : PageEntry} {i : FrameInfo} (h : r.Backs q m)
    (he : r.page? pid v = some e) (hs : e'.state = e.state) (hro : e'.readOnly = e.readOnly) :
    (r.link pid v e' f i).Backs q m := by
  obtain ⟨e₁, he₁, hs₁, hro₁, hclean⟩ := h
  by_cases hqw : q = pid ∧ m.vpn = v
  · rw [hqw.1, hqw.2, he] at he₁
    cases he₁
    refine ⟨e', ?_, hs.trans hs₁, hro₁.trans hro.symm, hclean⟩
    rw [page?_link he, if_pos hqw]
  · refine ⟨e₁, ?_, hs₁, hro₁, hclean⟩
    rw [page?_link he, if_neg hqw, he₁]

theorem state_link {e' : PageEntry} {i : FrameInfo} (he : r.page? pid v = some e)
    (hs : e'.state = e.state) :
    ((r.link pid v e' f i).page? q w).map (·.state) = (r.page? q w).map (·.state) := by
  rw [page?_link he]
  split
  · next hqw => rw [hqw.1, hqw.2, he, Option.map_some, Option.map_some, hs]
  · rfl

theorem Backs.absorb (h : r.Backs pid m) : (r.absorb copies).Backs pid m := by
  obtain ⟨e, he, hs, hro, hclean⟩ := h
  refine ⟨e.absorb copies, ?_, by simpa using hs, by simpa using hro, hclean⟩
  rw [page?_absorb, he, Option.map_some]

theorem BacksAll.absorb (h : r.BacksAll more) : (r.absorb copies).BacksAll more := by
  intro m hm hv
  obtain ⟨pid, hb⟩ := h m hm hv
  exact ⟨pid, hb.absorb⟩

/-- A read-only page has no dirty copy. -/
theorem BacksAll.dirtyIn_eq (hb : r.BacksAll copies) (h : r.Coherent pins none)
    (he : r.page? pid v = some e) (hs : e.state = .resident f) (hro : e.readOnly = true) :
    dirtyIn copies f = false := by
  rw [dirtyIn, List.any_eq_false]
  intro m hm hdirty
  simp only [Bool.and_eq_true, beq_iff_eq] at hdirty
  obtain ⟨⟨hv, rfl⟩, hd⟩ := hdirty
  obtain ⟨q, e₁, he₁, hs₁, hro₁, hclean⟩ := hb m hm hv
  obtain ⟨rfl, rfl⟩ := h.unique he hs he₁ hs₁
  cases he.symm.trans he₁
  rw [hclean (hro₁.trans hro)] at hd
  cases hd

theorem Coherent.absorb (h : r.Coherent pins none) (hb : r.BacksAll copies) :
    (r.absorb copies).Coherent pins none := by
  refine h.map (fun e => PageEntry.state_absorb) (fun e => PageEntry.vpn_absorb)
    (fun e => PageEntry.readOnly_absorb) ?_ (fun _ _ => FrameInfo.absorb_holding) ?_
  · intro q w e he hro
    rw [PageEntry.readOnly_absorb] at hro
    cases hs : e.state with
    | resident g =>
      rw [PageEntry.absorb_resident hs]
      simp only [h.clean he hro, hb.dirtyIn_eq h he hs hro, Bool.or_false]
    | absent => rw [PageEntry.absorb_of_not_resident (by simp [hs]), h.clean he hro]
    | swapped s => rw [PageEntry.absorb_of_not_resident (by simp [hs]), h.clean he hro]
  · intro i _ hm
    exact FrameInfo.absorb_of_invalid (by rw [hm])

/-- Only the bits that copies add count. -/
theorem Coherent.absorb_congr (h : r.Coherent pins none)
    (hbits : ∀ {pid v e f}, r.page? pid v = some e → e.state = .resident f →
      (e.used || usedIn copies f) = (e.used || usedIn more f) ∧
        (e.dirty || dirtyIn copies f) = (e.dirty || dirtyIn more f)) :
    r.absorb copies = r.absorb more := by
  have hentry : ∀ {q w e f}, r.page? q w = some e → e.state = .resident f →
      e.absorb copies = e.absorb more := by
    intro q w e f he hs
    rw [PageEntry.absorb_resident hs, PageEntry.absorb_resident hs, (hbits he hs).1, (hbits he hs).2]
  refine map_congr ?_ ?_
  · intro q p w e hp he
    cases hs : e.state with
    | resident f =>
      refine hentry ((h.page?_or_absent hp he).resolve_right ?_) hs
      simp [hs]
    | absent =>
      rw [PageEntry.absorb_of_not_resident (by simp [hs]),
        PageEntry.absorb_of_not_resident (by simp [hs])]
    | swapped s =>
      rw [PageEntry.absorb_of_not_resident (by simp [hs]),
        PageEntry.absorb_of_not_resident (by simp [hs])]
  · intro g j hj
    cases ho : j.owner with
    | none =>
      have hm := (h.idle hj (by simp) ho).1
      rw [FrameInfo.absorb_of_invalid (by rw [hm]), FrameInfo.absorb_of_invalid (by rw [hm])]
    | some q =>
      obtain ⟨e, he, hs, rfl⟩ := h.owned hj (by simp) ho
      rw [FrameInfo.absorb_holding, FrameInfo.absorb_holding, hentry he hs]

/-- Without copies nothing changes. -/
theorem absorb_nil : r.absorb [] = r := by
  obtain ⟨frames, hand, processes⟩ := r
  have hprocess : Process.map id = id := by
    funext p
    simp only [Process.map, PageTable.map, Row.map_id, id]
  simp only [absorb, Residency.map, PageEntry.absorb_nil, FrameInfo.absorb_nil, Row.map_id, hprocess,
    Option.map_id, List.map_id]

/-- One copy changes one page and its frame. -/
theorem Coherent.absorb_singleton (h : r.Coherent pins none) (hv : m.valid = true)
    (he : r.page? pid v = some e) (hs : e.state = .resident m.ppn) :
    r.absorb [m] =
      r.link pid v (e.merge m) m.ppn (.holding pid (e.merge m) (pins m.ppn)) := by
  have hmerge : e.absorb [m] = e.merge m := by
    rw [PageEntry.absorb_resident hs]
    simp [usedIn, dirtyIn, hv, PageEntry.merge]
  have hother : ∀ {g : Frame}, g ≠ m.ppn → usedIn [m] g = false ∧ dirtyIn [m] g = false := by
    intro g hg
    simp [usedIn, dirtyIn, Ne.symm hg]
  rw [← hmerge, ← FrameInfo.absorb_holding]
  refine map_eq_link (h.resident he hs).2 he ?_ ?_
  · intro q p w e₁ hp he₁ hne
    cases hs₁ : e₁.state with
    | resident g =>
      have hpage := (h.page?_or_absent hp he₁).resolve_right (by simp [hs₁])
      have hg : g ≠ m.ppn := by
        rintro rfl
        exact hne (h.unique he hs hpage hs₁)
      rw [PageEntry.absorb_resident hs₁, (hother hg).1, (hother hg).2, Bool.or_false, Bool.or_false]
    | absent => exact PageEntry.absorb_of_not_resident (by simp [hs₁])
    | swapped s => exact PageEntry.absorb_of_not_resident (by simp [hs₁])
  · intro g j hj hg
    cases ho : j.owner with
    | none =>
      have hm := (h.idle hj (by simp) ho).1
      exact FrameInfo.absorb_of_invalid (by rw [hm])
    | some q =>
      obtain ⟨e₁, he₁, hs₁, rfl⟩ := h.owned hj (by simp) ho
      rw [FrameInfo.absorb_holding, PageEntry.absorb_resident hs₁, (hother hg).1, (hother hg).2,
        Bool.or_false, Bool.or_false]

/-- A copy that is backed is absorbed; one that is not valid is ignored. -/
theorem Coherent.reconcile_eq (h : r.Coherent pins none)
    (hb : m.valid = true → ∃ pid, r.Backs pid m) : r.reconcile m = .ok (r.absorb [m]) := by
  unfold reconcile
  cases hv : m.valid with
  | false =>
    have hnone : r.absorb [m] = r.absorb [] :=
      h.absorb_congr fun _ _ => by simp [usedIn, dirtyIn, hv]
    rw [hnone, absorb_nil]
    rfl
  | true =>
    obtain ⟨pid, e, he, hs, -, -⟩ := hb hv
    obtain ⟨p, hp, hreg, hentry⟩ := page?_eq_some_iff.1 he
    have htable : r.table? pid = some p.table := table?_eq_some_iff.2 ⟨p, hp, hreg, rfl⟩
    have hinfo := (h.resident he hs).2
    have hvpn : (FrameInfo.holding pid e (pins m.ppn)).mapping.vpn = m.vpn := h.numbered he
    have hmerge : p.table.merge m.vpn m.ppn m = some (e.merge m, p.table.set m.vpn (e.merge m)) := by
      rw [PageTable.merge, PageTable.residentIn_eq hentry hs, Option.map_some]
    rw [h.absorb_singleton hv he hs, FrameTable.lookup_eq hinfo]
    have howner : (FrameInfo.holding pid e (pins m.ppn)).owner = some pid := rfl
    simp only [Bool.not_true, Bool.false_eq_true, if_false, bind, Except.bind, howner, htable,
      Option.bind_some, hvpn, hmerge, FrameTable.record_eq hinfo, setTable_eq htable]
    rfl

/-- Copies written back one by one are absorbed. -/
theorem Coherent.reconcileAll_eq (h : r.Coherent pins none) (hb : r.BacksAll copies) :
    r.reconcileAll copies = .ok (r.absorb copies) := by
  unfold reconcileAll
  induction copies generalizing r with
  | nil => rw [absorb_nil]; rfl
  | cons m rest ih =>
    have hfirst : r.BacksAll [m] := fun m' hm' => hb m' (by simp_all)
    have hrest : r.BacksAll rest := fun m' hm' => hb m' (List.mem_cons_of_mem m hm')
    rw [List.foldlM_cons, h.reconcile_eq (hb m List.mem_cons_self)]
    have hstep := ih (h.absorb hfirst) hrest.absorb
    rw [absorb_absorb] at hstep
    exact hstep

end Residency

end DemandPaging
