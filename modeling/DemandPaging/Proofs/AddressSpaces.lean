/-
  The bytes of the address spaces.

  Every byte of an address space is somewhere: in a frame, in a slot or, as long as its page has
  not been brought in, in the section that the page will come from (`Kernel.byteAt?`).  A step
  moves pages about, but changes no byte (`Step.pageBytes?`): the one that drops a page drops it
  because it has no mark, and a page without a mark is as it came (`Original`).  A write changes
  the bytes that it writes, and no others (`Accessed.byteAt?`).

  * `Reachable.original`: in every reachable kernel the pages without marks are as they came;
  * `Course.byteAt?`: the address spaces change as the accesses of a course say.
-/
import DemandPaging.Proofs.Contents
import DemandPaging.Proofs.Operated

namespace DemandPaging

/-! ## What pages come with -/

/-- What is loaded from a section is its page. -/
theorem Section.ends_loadAt_page {s : Section} {vpn : Vpn} :
    Ends (fun _ => True) (loadAt vpn s.pageSize).run s fun r _ =>
      ∀ page, r = .ok page → s.page (vpn - s.firstVpn) = .ok (some page) := by
  obtain ⟨name, firstVpn, readOnly, pageSize, content, loads⟩ := s
  unfold loadAt load
  simp only [ends_bind, ends_get]
  cases content with
  | data bytes =>
    simp only [ends_bind, ends_lift, ends_ite, ends_throw, ends_set, ends_pure]
    refine Checked.Ends.imp (Checked.ends_true fun _ _ => trivial) fun n _ => ?_
    refine ⟨fun _ => (by simp), fun _ => ⟨fun hne => absurd rfl hne, fun _ => ?_⟩⟩
    cases hpage : pageOfData pageSize bytes (vpn - firstVpn) with
    | error v => trivial
    | ok page =>
      rintro _ ⟨⟩
      exact congrArg (some <$> ·) hpage
  | reader n read =>
    dsimp only
    cases hread : read (vpn - firstVpn) pageSize with
    | none => rintro _ ⟨⟩
    | some page =>
      rintro _ ⟨⟩
      exact congrArg (fun o => Except.ok (o.map (·.toList))) hread

/-- The content that page `vpn` comes with: that of its section or, behind the image, zeroes. -/
def Executable.pageAt? (exe : Executable) (pageSize : Nat) (vpn : Vpn) : Option Bytes :=
  match exe.sectionFor vpn with
  | .ok (some s) => (s.page (vpn - s.firstVpn)).toOption.join
  | .ok none => some (Bytes.zeros pageSize)
  | .error _ => none

/-! ## Bytes that are put into a page -/

namespace Stored

variable {s : Stored} {pid q : Pid} {pageSize offset v a : Nat} {bytes : Bytes}

theorem put_within : s.put pid (pageOf pageSize a * pageSize + offset) bytes pid a =
    if offset ≤ offsetIn pageSize a then bytes[offsetIn pageSize a - offset]?.or (s pid a)
    else s pid a := by
  have hplace : ∀ {base : Nat}, base + offsetIn pageSize a = a →
      (base + offset ≤ a ↔ offset ≤ offsetIn pageSize a) ∧
        a - (base + offset) = offsetIn pageSize a - offset := by omega
  obtain ⟨hstart, hindex⟩ := hplace pageOf_mul_add_offsetIn
  simp only [put, hstart, hindex, true_and]

/-- No other page has any of them. -/
theorem put_apart (hpos : 0 < pageSize) (hfits : offset + bytes.length ≤ pageSize)
    (hpage : ¬ (q = pid ∧ pageOf pageSize a = v)) :
    s.put pid (v * pageSize + offset) bytes q a = s q a := by
  unfold put
  split
  · next hput =>
    obtain ⟨rfl, hlow⟩ := hput
    have hv : v < a / pageSize := by
      refine Nat.lt_of_le_of_ne ((Nat.le_div_iff_mul_le hpos).2 ?_) fun hv => hpage ⟨rfl, hv.symm⟩
      exact Nat.le_trans (Nat.le_add_right _ _) hlow
    have hbehind : v * pageSize + pageSize ≤ a :=
      Nat.le_trans (Bytes.unit_le hv) (Nat.div_mul_le_self _ _)
    have hout : bytes.length ≤ a - (v * pageSize + offset) := by omega
    rw [List.getElem?_eq_none hout, Option.none_or]
  · rfl

end Stored

namespace Kernel

variable {σ : Type} {content : σ → Nat → UInt8} {c : Conduct σ} {pins pins' : Frame → Nat}
  {k k' k₁ : Kernel σ} {pid q : Pid} {v w : Vpn} {e e' : PageEntry} {f : Frame} {p : Process}
  {log : List Access} {page bytes : Bytes} {write : Bool} {offset : Nat} {stored : Stored}

/-- The content that page `v` of process `pid` comes with. -/
def firstPage? (k : Kernel σ) (pid : Pid) (v : Vpn) : Option Bytes :=
  (k.program? pid).bind (·.pageAt? k.memory.pageSize v)

/-- A page that is fetched for the first time is what it comes with. -/
theorem Fetched.firstPage? {loose : Option Frame} (hfetch : Fetched c p e k (.ok page) k')
    (h : k.Sound pins loose) (hp : k.residency.outline? pid = some p.outline)
    (habsent : e.state = .absent) : k.firstPage? pid e.vpn = some page := by
  have hlaid := h.laid hp
  have hprogram : ∀ {exe}, k.executable p.executable = .ok exe →
      k.program? pid = some exe.unloaded := by
    intro exe hexe
    rw [program?, hp, Option.bind_some]
    exact images_of_executable hexe
  generalize hresult : Except.ok page = result at hfetch
  cases hfetch with
  | swapped hs => cases habsent.symm.trans hs
  | @zero exe n _ hexe hn hstack =>
    cases hresult
    obtain ⟨exe₁, flags, hexe₁, hpages, -, -, hbehind⟩ := executable_eq hlaid
    cases hexe.symm.trans hexe₁
    cases hn.symm.trans hpages
    have hnone : exe.unloaded.position? e.vpn = Except.ok none :=
      Executable.position?_unloaded.trans (hbehind e.vpn hstack)
    rw [Kernel.firstPage?, hprogram hexe, Option.bind_some, Executable.pageAt?,
      Executable.sectionFor, hnone]
    rfl
  | @image exe j sectionId s r s' _ hexe hposition hid hsection hload =>
    have hids := images_of_executable hexe
    have himage : exe.unloaded[j]? = some s.unloaded := by
      rw [mapM_getElem? hids hid, images, List.getElem?_map, hsection, Option.map_some]
    have hsize : s.pageSize = k.memory.pageSize := by
      obtain ⟨exe₁, -, hexe₁, hunit, -⟩ := hlaid
      cases hids.symm.trans hexe₁
      exact hunit s.unloaded (List.mem_of_getElem? himage)
    have hsome : exe.unloaded.position? e.vpn = Except.ok (some j) :=
      Executable.position?_unloaded.trans hposition
    cases r with
    | error _ => cases hresult
    | ok page =>
      cases hresult
      rw [← hsize] at hload
      have hpage := Section.ends_loadAt_page.of_run hload page rfl
      rw [Kernel.firstPage?, hprogram hexe, Option.bind_some, Executable.pageAt?,
        Executable.sectionFor, hsome]
      simp only [bind, Except.bind, pure, Except.pure, Option.bind_some, himage]
      change (s.page (e.vpn - s.firstVpn)).toOption.join = _
      rw [hpage]
      rfl

theorem firstPage?_congr (hsize : k'.memory.pageSize = k.memory.pageSize)
    (hprogram : k'.program? q = k.program? q) : k'.firstPage? q w = k.firstPage? q w := by
  rw [firstPage?, firstPage?, hsize, hprogram]

/-! ## What pages hold -/

/-- The content of page `v` of process `pid`: what is where the page is, or what it will come
    with. -/
def pageBytes? (content : σ → Nat → UInt8) (k : Kernel σ) (pid : Pid) (v : Vpn) : Option Bytes :=
  ((k.residency.page? pid v).map (·.state)).bind fun state =>
    (k.holding content state).or (k.firstPage? pid v)

/-- The byte at an address of process `pid`. -/
def byteAt? (content : σ → Nat → UInt8) (k : Kernel σ) : Stored := fun pid a =>
  (k.pageBytes? content pid (pageOf k.memory.pageSize a)).bind (·[offsetIn k.memory.pageSize a]?)

theorem pageBytes?_of_holding (he : k.residency.page? q w = some e)
    (hbytes : k.holding content e.state = some bytes) :
    k.pageBytes? content q w = some bytes := by
  rw [pageBytes?, he, Option.map_some, Option.bind_some, hbytes, Option.some_or]

/-- Content that is nowhere is still to come. -/
theorem pageBytes?_of_absent (he : k.residency.page? q w = some e)
    (hnone : k.holding content e.state = none) :
    k.pageBytes? content q w = k.firstPage? q w := by
  rw [pageBytes?, he, Option.map_some, Option.bind_some, hnone, Option.none_or]

theorem absent_of_holding (hnone : k.holding content e.state = none) : e.state = .absent := by
  cases hs : e.state with
  | absent => rfl
  | resident f =>
    rw [hs] at hnone
    cases hnone
  | swapped s =>
    rw [hs] at hnone
    cases hnone

theorem pageBytes?_congr
    (hstate : (k'.residency.page? q w).map (·.state) = (k.residency.page? q w).map (·.state))
    (hhold : ∀ state, k'.holding content state = k.holding content state)
    (hfirst : k'.firstPage? q w = k.firstPage? q w) :
    k'.pageBytes? content q w = k.pageBytes? content q w := by
  simp only [pageBytes?, hstate, hhold, hfirst]

/-- Content that has been brought to a page was its content before. -/
theorem Brought.pageBytes? (h : Brought content pins k q w bytes) :
    k.pageBytes? content q w = some bytes := by
  cases h with
  | held he hbytes => exact pageBytes?_of_holding he hbytes
  | @fetched f e p k₁ hk he habsent hp hfetch =>
    have hnone : k.holding content e.state = none := by
      rw [habsent]
      rfl
    rw [pageBytes?_of_absent he hnone, ← hk.frames.numbered he]
    exact hfetch.firstPage? hk hp habsent

theorem Brought.lt_nextPid (h : Brought content pins k q w bytes) : q < k.residency.nextPid := by
  obtain ⟨e, he⟩ : ∃ e, k.residency.page? q w = some e := by
    cases h with
    | held he => exact ⟨_, he⟩
    | fetched _ he => exact ⟨_, he⟩
  obtain ⟨p, hp, -⟩ := Residency.page?_eq_some_iff.1 he
  exact Residency.lt_nextPid hp

/-! ## Pages without marks -/

/-- Pages without marks have the content that they came with. -/
structure Original (content : σ → Nat → UInt8) (k : Kernel σ) : Prop where
  blank : ∀ {pid v e}, k.residency.page? pid v = some e → e.Blank
  first : ∀ {pid v e}, k.residency.page? pid v = some e → e.changed k.tlb.mappings = false →
    k.pageBytes? content pid v = k.firstPage? pid v

theorem Original.of_nil (h : k.residency.processes = []) : k.Original content where
  blank he := nomatch (Residency.page?_of_nil h).symm.trans he
  first he := nomatch (Residency.page?_of_nil h).symm.trans he

theorem Course.firstPage? (hcourse : Course c pins k log k') (hq : q < k.residency.nextPid)
    (he' : k'.residency.page? q w = some e') : k'.firstPage? q w = k.firstPage? q w := by
  obtain ⟨p, hp, -⟩ := Residency.page?_eq_some_iff.1 he'
  have hprogram := hcourse.program? hq (Residency.outline?_of_process hp)
  exact firstPage?_congr hcourse.same.pageSize hprogram

/-- A step changes the content of no page.  What has lost its place had no mark, so that it is
    what the page will come with. -/
theorem Step.pageBytes? (hstep : Step (arrayConduct content) pins k k') (h : k.Original content)
    (hq : q < k.residency.nextPid) (he' : k'.residency.page? q w = some e') :
    k'.pageBytes? content q w = k.pageBytes? content q w := by
  cases hhold : k'.holding content e'.state with
  | some bytes =>
    rw [pageBytes?_of_holding he' hhold]
    exact (hstep.holding he' hhold).pageBytes?.symm
  | none =>
    have hclean : e'.changed k'.tlb.mappings = false :=
      PageEntry.changed_absent (absent_of_holding hhold)
    rw [pageBytes?_of_absent he' hhold, hstep.course.firstPage? hq he']
    cases hstep.traced (fun _ _ _ he => h.blank he) he' with
    | kept he hsame => exact (h.first he (hsame.changed.symm.trans hclean)).symm
    | made hnew => exact absurd hq (Nat.not_lt.2 hnew)

theorem Original.step (h : k.Original content) (hstep : Step (arrayConduct content) pins k k') :
    k'.Original content := by
  have htraced : ∀ {q w e'}, k'.residency.page? q w = some e' →
      k.Traced k'.tlb.mappings q w e' := fun he' => hstep.traced (fun _ _ _ he => h.blank he) he'
  constructor
  · intro q w e' he'
    cases htraced he' with
    | kept he hsame => exact hsame.blank (h.blank he)
    | made _ _ hblank => exact hblank
  · intro q w e' he' hclean
    cases htraced he' with
    | kept he hsame =>
      obtain ⟨p, hp, -⟩ := Residency.page?_eq_some_iff.1 he
      have hq := Residency.lt_nextPid hp
      rw [hstep.pageBytes? h hq he', hstep.course.firstPage? hq he']
      exact h.first he (hsame.changed.symm.trans hclean)
    | made hnew =>
      -- a new page has nothing from before
      refine pageBytes?_of_absent he' (Option.eq_none_iff_forall_ne_some.2 fun bytes hbytes => ?_)
      exact absurd (hstep.holding he' hbytes).lt_nextPid (Nat.not_lt.2 hnew)

/-! ## Accesses -/

theorem Accessed.firstPage? (hacc : Accessed pins pid v f write k k') :
    k'.firstPage? q w = k.firstPage? q w :=
  firstPage?_congr hacc.stays.keeps.pageSize hacc.program?

/-- The mark that an access leaves is not part of the content. -/
theorem Accessed.pageBytes? (hacc : Accessed pins pid v f write k k') :
    k'.pageBytes? content q w = k.pageBytes? content q w := by
  refine pageBytes?_congr (hacc.states q w) (fun state => ?_) hacc.firstPage?
  cases state with
  | absent => rfl
  | resident g => rw [Kernel.holding, Kernel.holding, hacc.memory]
  | swapped s => rw [Kernel.holding, Kernel.holding, hacc.swap]

/-- An accessed page holds what its frame holds. -/
theorem Accessed.pageBytes?_frame (hacc : Accessed pins pid v f write k k') :
    k.pageBytes? content pid v = some (k.memory.frameBytes f) := by
  obtain ⟨e, he, hs, -⟩ := hacc.page
  refine pageBytes?_of_holding he ?_
  rw [hs]
  rfl

theorem Original.accessed (h : k.Original content) (hacc : Accessed pins pid v f write k k') :
    k'.Original content where
  blank := by
    intro q w e' he'
    obtain ⟨e, he, -, hblank, -⟩ := hacc.traced he'
    exact hblank (h.blank he)
  first := by
    intro q w e' he' hclean
    obtain ⟨e, he, -, -, hchanged⟩ := hacc.traced he'
    rw [hchanged, Bool.or_eq_false_iff] at hclean
    rw [hacc.pageBytes?, hacc.firstPage?]
    exact h.first he hclean.1

theorem Accessed.firstPage?_patch (hacc : Accessed pins pid v f true k k') {address : Nat} :
    Kernel.firstPage? { k' with memory := k.memory.patch address bytes } q w = k.firstPage? q w :=
  firstPage?_congr rfl hacc.program?

/-- A write replaces bytes of the page that is written. -/
theorem Accessed.pageBytes?_patch (hacc : Accessed pins pid v f true k k')
    (hfits : offset + bytes.length ≤ k.memory.pageSize) :
    Kernel.pageBytes? content { k' with
        memory := k.memory.patch (f * k.memory.pageSize + offset) bytes } q w =
      (k.pageBytes? content q w).map fun old =>
        if q = pid ∧ w = v then Bytes.overwrite old offset bytes else old := by
  rw [Kernel.pageBytes?, Kernel.pageBytes?, hacc.firstPage?_patch]
  change ((k'.residency.page? q w).map (·.state)).bind _ = _
  rw [hacc.states]
  cases he : k.residency.page? q w with
  | none => rfl
  | some e =>
    rw [Option.map_some, Option.bind_some, Option.bind_some]
    cases hnow : Kernel.holding content { k' with
        memory := k.memory.patch (f * k.memory.pageSize + offset) bytes } e.state with
    | some now =>
      obtain ⟨old, hold, rfl⟩ := hacc.holding hfits he hnow
      rw [hold]
      rfl
    | none =>
      have habsent := absent_of_holding hnow
      have hne : ¬ (q = pid ∧ w = v) := by
        rintro ⟨rfl, rfl⟩
        obtain ⟨e₀, he₀, hs₀, -⟩ := hacc.page
        cases he₀.symm.trans he
        cases hs₀.symm.trans habsent
      simp only [habsent, Kernel.holding, Option.none_or, if_neg hne, Option.map_id']

/-- A mark is left on the page that is written. -/
theorem Original.wrote (h : k.Original content) (hacc : Accessed pins pid v f true k k')
    (hfits : offset + bytes.length ≤ k.memory.pageSize) :
    Original content { k' with
      memory := k.memory.patch (f * k.memory.pageSize + offset) bytes } where
  blank := (h.accessed hacc).blank
  first := by
    intro q w e' he' hclean
    obtain ⟨e, he, -, -, hchanged⟩ := hacc.traced he'
    have hclean' : (e.changed k.tlb.mappings || (true && decide (q = pid ∧ w = v))) = false :=
      hchanged.symm.trans hclean
    rw [Bool.true_and, Bool.or_eq_false_iff, decide_eq_false_iff_not] at hclean'
    rw [hacc.pageBytes?_patch hfits, h.first he hclean'.1]
    simp only [if_neg hclean'.2, Option.map_id']
    exact hacc.firstPage?_patch.symm

/-- A write changes the bytes that it writes, and no others. -/
theorem Accessed.byteAt?_patch (hacc : Accessed pins pid v f true k k')
    (hfits : offset + bytes.length ≤ k.memory.pageSize) :
    byteAt? content { k' with
        memory := k.memory.patch (f * k.memory.pageSize + offset) bytes } =
      (k.byteAt? content).put pid (v * k.memory.pageSize + offset) bytes := by
  funext q a
  change (Kernel.pageBytes? content { k' with
    memory := k.memory.patch (f * k.memory.pageSize + offset) bytes } q
      (pageOf k.memory.pageSize a)).bind (·[offsetIn k.memory.pageSize a]?) = _
  rw [hacc.pageBytes?_patch hfits]
  by_cases hpage : q = pid ∧ pageOf k.memory.pageSize a = v
  · obtain ⟨rfl, rfl⟩ := hpage
    have hframe : k.pageBytes? content q _ = _ := hacc.pageBytes?_frame
    have hlen := PhysicalMemory.length_frameBytes hacc.sound_before.memory hacc.frame_lt
    rw [hframe, Option.map_some, if_pos ⟨rfl, rfl⟩, Option.bind_some,
      Bytes.getElem?_overwrite_or (hlen.symm ▸ hfits), Stored.put_within, byteAt?, hframe,
      Option.bind_some]
  · have hpos := hacc.sound_before.memory.pageSize_pos
    simp only [Stored.put_apart hpos hfits hpage, if_neg hpage, Option.map_id']
    rfl

/-! ## Courses -/

/-- The pages without marks are as they came, and the address spaces hold what they held in `k₀`
    but for what has been stored since. -/
structure Rewritten (content : σ → Nat → UInt8) (k₀ : Kernel σ) (stored : Stored) (k : Kernel σ) :
    Prop extends k.Original content where
  nextPid : k₀.residency.nextPid ≤ k.residency.nextPid
  byte : ∀ {pid a e}, pid < k₀.residency.nextPid →
    k.residency.page? pid (pageOf k.memory.pageSize a) = some e →
    k.byteAt? content pid a = (stored pid a).or (k₀.byteAt? content pid a)

theorem Original.rewritten (h : k.Original content) : Rewritten content k (fun _ _ => none) k where
  toOriginal := h
  nextPid := Nat.le_refl _
  byte _ _ := (Option.none_or).symm

theorem Rewritten.step {k₀ : Kernel σ} (h : Rewritten content k₀ stored k)
    (hstep : Step (arrayConduct content) pins k k') : Rewritten content k₀ stored k' where
  toOriginal := h.toOriginal.step hstep
  nextPid := Nat.le_trans h.nextPid hstep.nextPid_le
  byte := by
    intro q a e' hq he'
    have hnext := Nat.lt_of_lt_of_le hq h.nextPid
    rw [hstep.same.pageSize] at he'
    have hbytes := hstep.pageBytes? h.toOriginal hnext he'
    cases hstep.traced (fun _ _ _ he => h.blank he) he' with
    | kept he =>
      rw [← h.byte hq he, byteAt?, byteAt?, hstep.same.pageSize, hbytes]
    | made hnew => exact absurd hnext (Nat.not_lt.2 hnew)

theorem Rewritten.read {k₀ : Kernel σ} (h : Rewritten content k₀ stored k)
    (hacc : Accessed pins pid v f write k k') : Rewritten content k₀ stored k' where
  toOriginal := h.toOriginal.accessed hacc
  nextPid := hacc.nextPid ▸ h.nextPid
  byte := by
    intro q a e' hq he'
    have hsize := hacc.stays.keeps.pageSize
    rw [hsize] at he'
    obtain ⟨e, he, -⟩ := hacc.state he'
    rw [← h.byte hq he, byteAt?, byteAt?, hsize, hacc.pageBytes?]

theorem Rewritten.wrote {k₀ : Kernel σ} (h : Rewritten content k₀ stored k)
    (hacc : Accessed pins pid v f true k k') (hfits : offset + bytes.length ≤ k.memory.pageSize) :
    Rewritten content k₀ (stored.put pid (v * k.memory.pageSize + offset) bytes)
      { k' with memory := k.memory.patch (f * k.memory.pageSize + offset) bytes } where
  toOriginal := h.toOriginal.wrote hacc hfits
  nextPid := (h.read hacc).nextPid
  byte := by
    intro q a e' hq he'
    obtain ⟨e, he, -⟩ := hacc.state he'
    rw [hacc.byteAt?_patch hfits, Stored.put, Stored.put, h.byte hq he, ← Option.or_assoc]
    split <;> rfl

theorem carried_rewritten {k₀ : Kernel σ} :
    Carried (arrayConduct content) pins (Rewritten content k₀) where
  step hstep h := h.step hstep
  read hacc h := h.read hacc
  wrote hacc _ hfits h := h.wrote hacc hfits

/-- The address spaces change as the accesses of a course say. -/
theorem Course.byteAt? {a : Nat} (hcourse : Course (arrayConduct content) pins k log k')
    (h : k.Original content) (hwords : Bytes.wordSize ∣ k.memory.pageSize)
    (hq : q < k.residency.nextPid)
    (he' : k'.residency.page? q (pageOf k'.memory.pageSize a) = some e') :
    k'.byteAt? content q a =
      ((Stored.after (fun _ _ => none) log) q a).or (k.byteAt? content q a) :=
  (hcourse.carries carried_rewritten hwords h.rewritten).byte hq he'

/-- As long as nobody comes or goes, a course without accesses changes no byte. -/
theorem Course.byteAt?_eq (hcourse : Course (arrayConduct content) pins k [] k')
    (hkeeps : k.Keeps k') (h : k.Original content) (hwords : Bytes.wordSize ∣ k.memory.pageSize) :
    k'.byteAt? content = k.byteAt? content := by
  funext q a
  cases he : k.residency.page? q (pageOf k.memory.pageSize a) with
  | some e =>
    obtain ⟨p, hp, -⟩ := Residency.page?_eq_some_iff.1 he
    obtain ⟨e', he'⟩ := hkeeps.exists_page he
    rw [← hkeeps.pageSize] at he'
    exact (hcourse.byteAt? h hwords (Residency.lt_nextPid hp) he').trans Option.none_or
  | none =>
    rw [Kernel.byteAt?, Kernel.byteAt?, hkeeps.pageSize, Kernel.pageBytes?, Kernel.pageBytes?, he,
      hkeeps.page?_eq_none he]
    rfl

theorem Course.original (hcourse : Course (arrayConduct content) pins k log k')
    (h : k.Original content) (hwords : Bytes.wordSize ∣ k.memory.pageSize) : k'.Original content :=
  (hcourse.carries carried_rewritten hwords h.rewritten).toOriginal

/-! ## Reachable kernels -/

/-- Pins are not part of the content. -/
theorem Original.pinned {r : Residency} (h : k.Original content)
    (hpage : ∀ q w, r.page? q w = k.residency.page? q w)
    (houtline : ∀ q, r.outline? q = k.residency.outline? q) :
    Original content { k with residency := r } where
  blank he := h.blank ((hpage _ _).symm.trans he)
  first := by
    intro q w e he hclean
    have hprogram : Kernel.program? { k with residency := r } q = k.program? q := by
      rw [Kernel.program?, Kernel.program?, houtline]
      rfl
    have hfirst : Kernel.firstPage? { k with residency := r } q w = k.firstPage? q w :=
      firstPage?_congr rfl hprogram
    rw [hfirst, ← h.first ((hpage q w).symm.trans he) hclean]
    exact pageBytes?_congr (congrArg _ (hpage q w)) (fun _ => rfl) hfirst

theorem Operated.original {op : Operation}
    (hop : Operated (arrayConduct content) pins k op pins' k') (h : k.Original content)
    (hwords : Bytes.wordSize ∣ k.memory.pageSize) :
    k'.Original content := by
  cases hop with
  | ran _ hcourse => exact hcourse.original h hwords
  | @pinned pid v write e f k₁ hsound hcourse he hs hwrite =>
    have hmarked := (hcourse.original h hwords).accessed (.marked hsound he hs hwrite)
    have houtline : ∀ q i, (k₁.residency.link pid v (e.touch write) f i).outline? q = _ :=
      fun q i => Residency.outline?_link he rfl
    refine hmarked.pinned (fun q w => ?_) fun q => (houtline q _).trans (houtline q _).symm
    exact (Residency.page?_link he).trans (Residency.page?_link he).symm
  | unpinned hun =>
    have hpage : ∀ q w, _ = k.residency.page? q w := fun q w => hun.page?
    have houtline := hun.keeps.outline
    cases hun with
    | kept => exact h.pinned hpage houtline
    | freed => exact h.pinned hpage houtline

section Reachable

variable [BackingStore σ]

/-- In every reachable kernel the pages without marks are as they came. -/
theorem Reachable.original (h : k.Reachable) (hstore : IsArray (fun _ => True) content)
    (hwords : Bytes.wordSize ∣ k.memory.pageSize) : k.Original content := by
  induction h with
  | fresh h => exact .of_nil ((Checked.ends_of_eq_ok h).1 ends_boot_fresh).empty
  | step h hrun ih =>
    obtain ⟨pins, hsound, htlb⟩ := h.sound
    obtain ⟨pins', hop⟩ := (ends_operated (.of_holds hstore.holds) hsound htlb).of_run hrun
    rw [hop.same.pageSize] at hwords
    exact hop.original (ih hwords) hwords

end Reachable

end Kernel

end DemandPaging
