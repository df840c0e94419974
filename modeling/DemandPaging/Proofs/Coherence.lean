/-
  Frame table, page tables and pool agree.

  `Residency.Coherent` says that a frame is owned by a page exactly when the page is
  resident in it, and that the record of the frame is then the hardware's view of the
  page's entry; that every other frame is in the pool, or waits for its last pin, or is surplus
  and as it was at the start; and that pins are as `pins` counts them.  A fault has one frame
  in its hands for a while, of which nothing more is said (`loose`).

  * `coherent_iff` takes this apart frame by frame: a frame is held by its only page or
    nobody has it, and a change elsewhere leaves it as it was (`CoherentAt`);
  * `Coherent.link` moves a page into a frame or out of it; `rebit`, `unload` and `load` are
    its cases;
  * `takeOne`, `loosen`, `giveBack`, `defer` and `repin` change frames only, `of_pages`
    processes only.
-/
import DemandPaging.Proofs.Pages

namespace DemandPaging

/-- The record of a frame held by a page with `n` pins. -/
def FrameInfo.holding (pid : Pid) (e : PageEntry) (n : Nat) : FrameInfo :=
  ⟨some pid, e.mapping, n, false⟩

/-- The record of a frame that nobody has, with `n` pins. -/
def FrameInfo.unowned (n : Nat) : FrameInfo := ⟨none, {}, n, 0 < n⟩

namespace Residency

variable {pins pins' : Frame → Nat} {loose loose' : Option Frame} {r r' : Residency}
  {pid q : Pid} {v w : Vpn} {e e' e₁ : PageEntry} {f g : Frame} {i i' : FrameInfo}
  {table : FrameTable}

/-- The processes are well formed: pages are numbered, read-only pages are clean, and a
    process is registered until it exits, when it has nothing left. -/
structure Formed (r : Residency) : Prop where
  numbered : ∀ {pid v e}, r.page? pid v = some e → e.vpn = v
  clean : ∀ {pid v e}, r.page? pid v = some e → e.readOnly = true → e.dirty = false
  live : ∀ {pid o}, r.outline? pid = some o → o.registered = !o.exited
  sized : ∀ {pid o}, r.outline? pid = some o → o.numPages = o.readOnly.length
  gone : ∀ {pid p}, r.process? pid = some p → p.registered = false →
    ∀ e ∈ p.table.entries.toList, e.state = .absent

/-- Frames and pages agree, but for the frame `loose`. -/
structure Coherent (pins : Frame → Nat) (loose : Option Frame) (r : Residency) : Prop
    extends r.Formed where
  /-- An owned frame holds a page that is resident in it. -/
  owned : ∀ {f i pid}, r.frames.info? f = some i → loose ≠ some f → i.owner = some pid →
    ∃ e, r.page? pid i.mapping.vpn = some e ∧ e.state = .resident f ∧ i = .holding pid e (pins f)
  /-- A resident page owns its frame. -/
  resident : ∀ {pid v e f}, r.page? pid v = some e → e.state = .resident f →
    loose ≠ some f ∧ r.frames.info? f = some (.holding pid e (pins f))
  /-- A frame without an owner is in the pool, or goes there with its last pin, or is surplus. -/
  idle : ∀ {f i}, r.frames.info? f = some i → loose ≠ some f → i.owner = none →
    i.mapping = {} ∧ (f ∈ r.frames.pool.toList ∨ 0 < i.pinCount ∧ i.freeWhenUnpinned = true ∨
      r.frames.usable ≤ f)
  /-- Nothing happens to a surplus frame. -/
  surplus : ∀ {f i}, r.frames.info? f = some i → r.frames.usable ≤ f → i = {}
  pooled : ∀ {f}, f ∈ r.frames.pool.toList → loose ≠ some f ∧ r.frames.info? f = some {}
  pooled_lt : ∀ {f}, f ∈ r.frames.pool.toList → f < r.frames.usable
  pinned : ∀ {f i}, r.frames.info? f = some i → loose ≠ some f → i.pinCount = pins f
  inHand_lt : ∀ {f}, loose = some f → f < r.frames.usable
  hand_lt : r.hand < r.frames.size

/-- Being well formed is about the processes only. -/
theorem Formed.of_frames {n : Nat} (h : r.Formed) :
    Formed { r with frames := table, hand := n } := by
  have hp : ∀ q, ({ r with frames := table, hand := n } : Residency).process? q = r.process? q :=
    fun q => by cases q <;> rfl
  have ho : ∀ q, ({ r with frames := table, hand := n } : Residency).outline? q = r.outline? q :=
    fun q => by unfold outline?; rw [hp]
  refine ⟨fun he => h.numbered ((page?_congr (hp _)).symm.trans he),
    fun he => h.clean ((page?_congr (hp _)).symm.trans he), fun h' => h.live ((ho _).symm.trans h'),
    fun h' => h.sized ((ho _).symm.trans h'), fun h' => h.gone ((hp _).symm.trans h')⟩

/-- An entry may change in anything but its number and its flag, as long as read-only pages
    stay clean. -/
theorem Formed.setEntry (h : r.Formed) (he : r.page? pid v = some e) (hv : e'.vpn = e.vpn)
    (hro : e'.readOnly = e.readOnly) (hclean : e'.readOnly = true → e'.dirty = false) :
    (r.setEntry pid v e').Formed := by
  refine ⟨?_, ?_, ?_, ?_, ?_⟩
  · intro q w e₁ he₁
    rw [page?_setEntry he] at he₁
    split at he₁
    · next hqw => cases he₁; rw [hv, h.numbered he, hqw.2]
    · exact h.numbered he₁
  · intro q w e₁ he₁
    rw [page?_setEntry he] at he₁
    split at he₁
    · cases he₁; exact hclean
    · exact h.clean he₁
  · intro q o ho
    rw [outline?_setEntry he hro] at ho
    exact h.live ho
  · intro q o ho
    rw [outline?_setEntry he hro] at ho
    exact h.sized ho
  · intro q p hp hreg
    obtain ⟨p₀, hp₀, hreg₀, -⟩ := page?_eq_some_iff.1 he
    rw [Residency.setEntry, process?_updateProcess] at hp
    split at hp
    · next hq =>
      subst hq
      rw [hp₀] at hp
      cases hp
      exact absurd (hreg₀.symm.trans hreg) (by simp)
    · exact h.gone hp hreg

/-- Without processes there is nothing to be well formed. -/
theorem Formed.of_nil (h : r.processes = []) : r.Formed where
  numbered he := by cases (page?_of_nil h).symm.trans he
  clean he := by cases (page?_of_nil h).symm.trans he
  live ho := by cases (outline?_of_nil h).symm.trans ho
  sized ho := by cases (outline?_of_nil h).symm.trans ho
  gone hp := by cases (process?_of_nil h).symm.trans hp

/-! ## One frame at a time -/

/-- What `Coherent` says of one frame that is not in hand. -/
structure CoherentAt (pins : Frame → Nat) (r : Residency) (f : Frame) : Prop where
  owned : ∀ {i pid}, r.frames.info? f = some i → i.owner = some pid →
    ∃ e, r.page? pid i.mapping.vpn = some e ∧ e.state = .resident f ∧ i = .holding pid e (pins f)
  resident : ∀ {pid v e}, r.page? pid v = some e → e.state = .resident f →
    r.frames.info? f = some (.holding pid e (pins f))
  idle : ∀ {i}, r.frames.info? f = some i → i.owner = none →
    i.mapping = {} ∧ (f ∈ r.frames.pool.toList ∨ 0 < i.pinCount ∧ i.freeWhenUnpinned = true ∨
      r.frames.usable ≤ f)
  surplus : ∀ {i}, r.frames.info? f = some i → r.frames.usable ≤ f → i = {}
  pooled : f ∈ r.frames.pool.toList → r.frames.info? f = some {}
  pooled_lt : f ∈ r.frames.pool.toList → f < r.frames.usable
  pinned : ∀ {i}, r.frames.info? f = some i → i.pinCount = pins f

/-- The frame in hand is one of those in use, and neither a page nor the pool has it. -/
structure InHand (r : Residency) (f : Frame) : Prop where
  empty : ∀ {pid v e}, r.page? pid v = some e → e.state ≠ .resident f
  notMem : f ∉ r.frames.pool.toList
  lt : f < r.frames.usable

theorem InHand.known (h : r.InHand f) : ∃ i, r.frames.info? f = some i :=
  FrameTable.lt_size_iff.1 (Nat.lt_of_lt_of_le h.lt FrameTable.usable_le)

theorem coherent_iff : r.Coherent pins loose ↔ r.Formed ∧
    (∀ f, loose ≠ some f → r.CoherentAt pins f) ∧ (∀ f, loose = some f → r.InHand f) ∧
    r.hand < r.frames.size := by
  constructor
  · intro h
    refine ⟨h.toFormed, fun f hf => ?_, fun f hf => ?_, h.hand_lt⟩
    · exact {
        owned := fun hi hq => h.owned hi hf hq
        resident := fun he hs => (h.resident he hs).2
        idle := fun hi ho => h.idle hi hf ho
        surplus := h.surplus
        pooled := fun hmem => (h.pooled hmem).2
        pooled_lt := h.pooled_lt
        pinned := fun hi => h.pinned hi hf }
    · exact {
        empty := fun he hs => (h.resident he hs).1 hf
        notMem := fun hmem => (h.pooled hmem).1 hf
        lt := h.inHand_lt hf }
  · rintro ⟨hformed, hat, hhand, hlt⟩
    exact {
      hformed with
      owned := fun hi hf hq => (hat _ hf).owned hi hq
      resident := fun he hs =>
        have hf := fun hf => (hhand _ hf).empty he hs
        ⟨hf, (hat _ hf).resident he hs⟩
      idle := fun hi hf ho => (hat _ hf).idle hi ho
      surplus := fun hi hle =>
        have hf := fun hf => Nat.not_lt.2 hle (hhand _ hf).lt
        (hat _ hf).surplus hi hle
      pooled := fun hmem =>
        have hf := fun hf => (hhand _ hf).notMem hmem
        ⟨hf, (hat _ hf).pooled hmem⟩
      pooled_lt := fun hmem =>
        have hf := fun hf => (hhand _ hf).notMem hmem
        (hat _ hf).pooled_lt hmem
      pinned := fun hi hf => (hat _ hf).pinned hi
      inHand_lt := fun hf => (hhand _ hf).lt
      hand_lt := hlt }

namespace CoherentAt

/-- A frame agrees with the pages as before when nothing about it has changed. -/
theorem congr (h : r.CoherentAt pins f)
    (hpage : ∀ {pid v e}, e.state = .resident f →
      (r'.page? pid v = some e ↔ r.page? pid v = some e))
    (hinfo : r'.frames.info? f = r.frames.info? f) (hsize : r'.frames.size = r.frames.size)
    (hpool : f ∈ r'.frames.pool.toList ↔ f ∈ r.frames.pool.toList) (hpins : pins' f = pins f) :
    r'.CoherentAt pins' f := by
  have husable : r'.frames.usable = r.frames.usable := congrArg (· % limit32) hsize
  refine ⟨?_, ?_, ?_, ?_, ?_, ?_, ?_⟩
  · intro i q hi hq
    obtain ⟨e, he, hs, heq⟩ := h.owned (hinfo ▸ hi) hq
    exact ⟨e, (hpage hs).2 he, hs, hpins ▸ heq⟩
  · intro q v e he hs
    rw [hinfo, hpins, h.resident ((hpage hs).1 he) hs]
  · intro i hi ho
    rw [hpool, husable]
    exact h.idle (hinfo ▸ hi) ho
  · intro i hi hle
    exact h.surplus (hinfo ▸ hi) (husable ▸ hle)
  · intro hmem
    rw [hinfo, h.pooled (hpool.1 hmem)]
  · intro hmem
    rw [husable]
    exact h.pooled_lt (hpool.1 hmem)
  · intro i hi
    rw [hpins, h.pinned (hinfo ▸ hi)]

/-- A frame may be held by the only page that is resident in it. -/
theorem held (hinfo : r.frames.info? f = some (.holding pid e (pins f)))
    (he : r.page? pid e.vpn = some e) (hs : e.state = .resident f)
    (honly : ∀ {q w e₁}, r.page? q w = some e₁ → e₁.state = .resident f → q = pid ∧ e₁ = e)
    (hpool : f ∉ r.frames.pool.toList) (hlt : f < r.frames.usable) : r.CoherentAt pins f := by
  refine ⟨?_, ?_, ?_, fun _ hle => absurd hlt (Nat.not_lt.2 hle), fun hmem => absurd hmem hpool,
    fun hmem => absurd hmem hpool, ?_⟩
  · intro i q hi hq
    cases hinfo.symm.trans hi
    cases hq
    exact ⟨e, he, hs, rfl⟩
  · intro q w e₁ he₁ hs₁
    obtain ⟨rfl, rfl⟩ := honly he₁ hs₁
    exact hinfo
  · intro i hi ho
    cases hinfo.symm.trans hi
    cases ho
  · intro i hi
    cases hinfo.symm.trans hi
    rfl

/-- A frame in which no page is resident may be one that nobody has: it waits with pins, and
    without pins it is in the pool, unless it is surplus. -/
theorem unowned (hinfo : r.frames.info? f = some (.unowned (pins f)))
    (hempty : ∀ {pid v e}, r.page? pid v = some e → e.state ≠ .resident f)
    (hpool : f ∈ r.frames.pool.toList ↔ pins f = 0 ∧ f < r.frames.usable)
    (hsurplus : r.frames.usable ≤ f → pins f = 0) : r.CoherentAt pins f := by
  refine ⟨?_, fun he hs => absurd hs (hempty he), ?_, ?_, ?_, fun hmem => (hpool.1 hmem).2, ?_⟩
  · intro i q hi hq
    cases hinfo.symm.trans hi
    cases hq
  · intro i hi _
    cases hinfo.symm.trans hi
    refine ⟨rfl, ?_⟩
    rcases Nat.eq_zero_or_pos (pins f) with hzero | hpos
    · rcases Nat.lt_or_ge f r.frames.usable with hlt | hle
      · exact .inl (hpool.2 ⟨hzero, hlt⟩)
      · exact .inr (.inr hle)
    · exact .inr (.inl ⟨hpos, decide_eq_true hpos⟩)
  · intro i hi hle
    cases hinfo.symm.trans hi
    rw [hsurplus hle]
    rfl
  · intro hmem
    rw [hinfo, (hpool.1 hmem).1]
    rfl
  · intro i hi
    cases hinfo.symm.trans hi
    rfl

/-- A frame that does not exist is not to be found anywhere. -/
theorem missing (hinfo : r.frames.info? f = none)
    (hempty : ∀ {pid v e}, r.page? pid v = some e → e.state ≠ .resident f)
    (hpool : f ∉ r.frames.pool.toList) : r.CoherentAt pins f where
  owned hi _ := by cases hinfo.symm.trans hi
  resident he hs := absurd hs (hempty he)
  idle hi _ := by cases hinfo.symm.trans hi
  surplus hi _ := by cases hinfo.symm.trans hi
  pooled hmem := absurd hmem hpool
  pooled_lt hmem := absurd hmem hpool
  pinned hi := by cases hinfo.symm.trans hi

/-- A surplus frame has neither owner nor pins. -/
theorem pins_eq_zero (h : r.CoherentAt pins f) (hi : r.frames.info? f = some i)
    (hle : r.frames.usable ≤ f) : pins f = 0 := by
  have hpins := h.pinned hi
  rw [h.surplus hi hle] at hpins
  exact hpins.symm

/-- A frame with an owner is in use. -/
theorem lt_usable (h : r.CoherentAt pins f) (hi : r.frames.info? f = some i)
    (ho : i.owner = some pid) : f < r.frames.usable := by
  refine Nat.lt_of_not_le fun hle => ?_
  rw [h.surplus hi hle] at ho
  cases ho

/-- A frame is held by a page, or nobody has it. -/
theorem held_or_unowned (h : r.CoherentAt pins f) (hi : r.frames.info? f = some i) :
    (∃ pid e, r.page? pid i.mapping.vpn = some e ∧ e.state = .resident f ∧
      i = .holding pid e (pins f)) ∨
    i = .unowned (pins f) ∧ (f ∈ r.frames.pool.toList ↔ pins f = 0 ∧ f < r.frames.usable) := by
  cases ho : i.owner with
  | some pid => exact .inl ⟨pid, h.owned hi ho⟩
  | none =>
    right
    have hpins := h.pinned hi
    obtain ⟨hm, hmem | ⟨hpos, hwait⟩ | hle⟩ := h.idle hi ho
    · cases hi.symm.trans (h.pooled hmem)
      have hz : pins f = 0 := hpins.symm
      rw [hz]
      exact ⟨rfl, iff_of_true hmem ⟨rfl, h.pooled_lt hmem⟩⟩
    · have hout : f ∉ r.frames.pool.toList := fun hmem => by
        cases hi.symm.trans (h.pooled hmem)
        cases hwait
      rw [hpins] at hpos
      refine ⟨?_, iff_of_false hout fun hzero => Nat.ne_of_gt hpos hzero.1⟩
      calc
        i = ⟨i.owner, i.mapping, i.pinCount, i.freeWhenUnpinned⟩ := rfl
        _ = .unowned (pins f) := by
          rw [ho, hm, hpins, hwait, FrameInfo.unowned, decide_eq_true hpos]
    · rw [h.pins_eq_zero hi hle, h.surplus hi hle]
      have hout : f ∉ r.frames.pool.toList := fun hmem => Nat.not_lt.2 hle (h.pooled_lt hmem)
      exact ⟨rfl, iff_of_false hout fun hin => Nat.not_lt.2 hle hin.2⟩

end CoherentAt

namespace Coherent

/-- Without processes, frames and pages agree when all frames but surplus ones are in the pool. -/
theorem of_nil (h : r.processes = []) (hhand : r.hand < r.frames.size)
    (hframe : ∀ f i, r.frames.info? f = some i → i = {})
    (hpool : ∀ f, f ∈ r.frames.pool.toList ↔ f < r.frames.usable) :
    r.Coherent (fun _ => 0) none := by
  have hempty : ∀ {pid v e f}, r.page? pid v = some e → e.state ≠ .resident f := fun he _ => by
    cases (page?_of_nil h).symm.trans he
  refine coherent_iff.2 ⟨.of_nil h, fun f _ => ?_, by simp, hhand⟩
  cases hi : r.frames.info? f with
  | none =>
    refine .missing hi hempty fun hmem => ?_
    have hlt := Nat.lt_of_lt_of_le ((hpool f).1 hmem) FrameTable.usable_le
    obtain ⟨i, hi'⟩ := FrameTable.lt_size_iff.1 hlt
    cases hi.symm.trans hi'
  | some i =>
    obtain rfl := hframe f i hi
    exact .unowned hi hempty ((hpool f).trans (and_iff_right rfl).symm) fun _ => rfl

/-- What is said of a frame that is not in hand. -/
theorem atFrame (h : r.Coherent pins loose) (hf : loose ≠ some f) : r.CoherentAt pins f :=
  (coherent_iff.1 h).2.1 f hf

/-- What is said of the frame in hand. -/
theorem atHand (h : r.Coherent pins (some f)) : r.InHand f :=
  (coherent_iff.1 h).2.2.1 f rfl

/-- No two pages are resident in one frame. -/
theorem unique (h : r.Coherent pins loose) (he : r.page? pid v = some e)
    (hf : e.state = .resident f) (he₁ : r.page? q w = some e₁) (hf₁ : e₁.state = .resident f) :
    q = pid ∧ w = v := by
  have heq := (h.resident he hf).2.symm.trans (h.resident he₁ hf₁).2
  simp only [FrameInfo.holding, Option.some.injEq, FrameInfo.mk.injEq] at heq
  have hv : e.vpn = e₁.vpn := congrArg Mapping.vpn heq.2.1
  rw [h.numbered he, h.numbered he₁] at hv
  exact ⟨heq.1.symm, hv.symm⟩

theorem notMem_pool (h : r.Coherent pins loose) (he : r.page? pid v = some e)
    (hf : e.state = .resident f) : f ∉ r.frames.pool.toList := by
  intro hmem
  have heq := (h.pooled hmem).2.symm.trans (h.resident he hf).2
  simp [FrameInfo.holding] at heq

/-- A frame that holds a page is in use. -/
theorem frame_lt (h : r.Coherent pins loose) (he : r.page? pid v = some e)
    (hf : e.state = .resident f) : f < r.frames.usable := by
  obtain ⟨hloose, hinfo⟩ := h.resident he hf
  exact (h.atFrame hloose).lt_usable hinfo rfl

/-- A page moves into the frame `f` or out of it.  Nothing else was in the frame, and the
    page was nowhere else. -/
theorem link (h : r.Coherent pins loose) (hl : loose = none ∨ loose = some f)
    (hl' : loose' = none ∨ loose' = some f) (hi : r.frames.info? f = some i)
    (hlt : f < r.frames.usable) (hpool : f ∉ r.frames.pool.toList) (he : r.page? pid v = some e)
    (hold : ∀ g, e.state = .resident g → g = f)
    (halone : ∀ {q w e₁}, r.page? q w = some e₁ → e₁.state = .resident f → q = pid ∧ w = v)
    (hnew : ∀ g, e'.state = .resident g → g = f)
    (hin : loose' = none → e'.state = .resident f ∧ i' = .holding pid e' (pins f))
    (hout : loose' = some f → e'.state ≠ .resident f)
    (hv : e'.vpn = e.vpn) (hro : e'.readOnly = e.readOnly)
    (hclean : e'.readOnly = true → e'.dirty = false) :
    (r.link pid v e' f i').Coherent pins loose' := by
  have hself : (r.frames.put f i').info? f = some i' := FrameTable.info?_put_self hi
  -- Only the moved page can be in `f` afterwards.
  have honly : ∀ {q w e₁}, (r.link pid v e' f i').page? q w = some e₁ →
      e₁.state = .resident f → q = pid ∧ e₁ = e' := by
    intro q w e₁ he₁ hs₁
    rw [page?_link he] at he₁
    split at he₁
    · next hqw => exact ⟨hqw.1, (Option.some.inj he₁).symm⟩
    · next hqw => exact absurd (halone he₁ hs₁) hqw
  refine coherent_iff.2 ⟨(h.toFormed.setEntry he hv hro hclean).of_frames, fun g hg => ?_,
    fun g hg => ?_, ?_⟩
  · by_cases hgf : g = f
    · subst hgf
      obtain ⟨hs, rfl⟩ := hin (hl'.resolve_right hg)
      have hvpn : e'.vpn = v := hv.trans (h.numbered he)
      exact .held hself (hvpn.symm ▸ page?_link_self he) hs honly hpool
        (FrameTable.usable_put.symm ▸ hlt)
    · have hloose : loose ≠ some g := by
        rcases hl with rfl | rfl <;> simp [Ne.symm hgf]
      refine (h.atFrame hloose).congr ?_ (FrameTable.info?_put_ne hgf) FrameTable.size_put .rfl rfl
      intro q w e₁ hs₁
      rw [page?_link he]
      split
      · next hqw =>
        -- The moved page is resident in `g` neither before nor after.
        rw [hqw.1, hqw.2, he]
        refine iff_of_false ?_ ?_
        · rintro ⟨⟩
          exact hgf (hnew g hs₁)
        · rintro ⟨⟩
          exact hgf (hold g hs₁)
      · exact .rfl
  · obtain rfl : f = g := Option.some.inj ((hl'.resolve_left (by simp [hg])).symm.trans hg)
    exact ⟨fun he₁ hs₁ => hout hg ((honly he₁ hs₁).2 ▸ hs₁), hpool, FrameTable.usable_put.symm ▸ hlt⟩
  · rw [frames_link, FrameTable.size_put, hand_link]
    exact h.hand_lt

/-- Only the `used` and `dirty` bits of a resident page change. -/
theorem rebit (h : r.Coherent pins none) (he : r.page? pid v = some e)
    (hf : e.state = .resident f) (hs : e'.state = .resident f) (hv : e'.vpn = e.vpn)
    (hro : e'.readOnly = e.readOnly) (hclean : e'.readOnly = true → e'.dirty = false) :
    (r.link pid v e' f (.holding pid e' (pins f))).Coherent pins none :=
  h.link (.inl rfl) (.inl rfl) (h.resident he hf).2 (h.frame_lt he hf) (h.notMem_pool he hf) he
    (fun _ hg => PageState.resident.inj (hg.symm.trans hf)) (h.unique he hf)
    (fun _ hg => PageState.resident.inj (hg.symm.trans hs)) (fun _ => ⟨hs, rfl⟩) (by simp) hv hro hclean

/-- A page loses its frame, which is left in hand. -/
theorem unload (h : r.Coherent pins none) (he : r.page? pid v = some e)
    (hf : e.state = .resident f) (hs : ∀ g, e'.state ≠ .resident g) (hv : e'.vpn = e.vpn)
    (hro : e'.readOnly = e.readOnly) (hclean : e'.readOnly = true → e'.dirty = false) :
    (r.link pid v e' f i').Coherent pins (some f) :=
  h.link (.inl rfl) (.inr rfl) (h.resident he hf).2 (h.frame_lt he hf) (h.notMem_pool he hf) he
    (fun _ hg => PageState.resident.inj (hg.symm.trans hf)) (h.unique he hf)
    (fun g hg => absurd hg (hs g)) (by simp) (fun _ => hs f) hv hro hclean

/-- A page that was in no frame gets the one in hand. -/
theorem load (h : r.Coherent pins (some f)) (he : r.page? pid v = some e)
    (hf : ∀ g, e.state ≠ .resident g) (hs : e'.state = .resident f) (hv : e'.vpn = e.vpn)
    (hro : e'.readOnly = e.readOnly) (hclean : e'.readOnly = true → e'.dirty = false) :
    (r.link pid v e' f (.holding pid e' (pins f))).Coherent pins none := by
  obtain ⟨i, hi⟩ := h.atHand.known
  exact h.link (.inr rfl) (.inl rfl) hi h.atHand.lt (fun hmem => (h.pooled hmem).1 rfl) he
    (fun g hg => absurd hg (hf g)) (fun he₁ hs₁ => absurd rfl (h.resident he₁ hs₁).1)
    (fun _ hg => PageState.resident.inj (hg.symm.trans hs)) (fun _ => ⟨hs, rfl⟩) (by simp) hv hro hclean

/-! ## Changes of frames only -/

/-- The hand of the clock may stand at any frame. -/
theorem moveHand {n : Nat} (h : r.Coherent pins loose) (hn : n < r.frames.size) :
    Coherent pins loose { r with hand := n } :=
  { h.toFormed.of_frames with
    owned := h.owned, resident := h.resident, idle := h.idle, surplus := h.surplus
    pooled := h.pooled, pooled_lt := h.pooled_lt, pinned := h.pinned, inHand_lt := h.inHand_lt
    hand_lt := hn }

/-- The frame that leaves the pool is in hand. -/
theorem takeOne (h : r.Coherent pins none) (ht : r.frames.takeOne = some (f, table)) :
    Coherent pins (some f) { r with frames := table } ∧ table.info? f = some {} := by
  obtain ⟨hframes, hpool⟩ := FrameTable.takeOne_eq_some ht
  have hinfo : ∀ g, table.info? g = r.frames.info? g := fun g => by
    rw [FrameTable.info?, FrameTable.info?, hframes]
  have hnodup := r.frames.pool.nodup_toList
  rw [hpool, List.nodup_cons] at hnodup
  have hmem : f ∈ r.frames.pool.toList := hpool ▸ List.mem_cons_self
  have hf := (hinfo f).trans (h.pooled hmem).2
  have hsize : table.size = r.frames.size := by rw [FrameTable.size, FrameTable.size, hframes]
  refine ⟨coherent_iff.2 ⟨h.toFormed.of_frames, fun g hg => ?_, ?_, ?_⟩, hf⟩
  · refine (h.atFrame (by simp)).congr (by simp) (hinfo g) hsize ?_ rfl
    rw [hpool, List.mem_cons, or_iff_right]
    rintro rfl
    exact hg rfl
  · rintro _ ⟨⟩
    have husable : table.usable = r.frames.usable := congrArg (· % limit32) hsize
    refine ⟨fun he hs => ?_, hnodup.1, husable ▸ h.pooled_lt hmem⟩
    rw [page?_frames] at he
    exact h.notMem_pool he hs hmem
  · rw [hsize]
    exact h.hand_lt

/-- Whatever is recorded for the frame in hand, and however it is pinned. -/
theorem putLoose (h : r.Coherent pins (some f)) (hpins : ∀ g, g ≠ f → pins' g = pins g) :
    Coherent pins' (some f) { r with frames := r.frames.put f i } := by
  obtain ⟨i₀, hi₀⟩ := h.atHand.known
  refine coherent_iff.2 ⟨h.toFormed.of_frames, fun g hg => ?_, ?_, ?_⟩
  · have hgf : g ≠ f := fun hgf => hg (hgf ▸ rfl)
    exact (h.atFrame hg).congr (by simp) (FrameTable.info?_put_ne hgf) FrameTable.size_put .rfl
      (hpins g hgf)
  · rintro _ ⟨⟩
    refine ⟨fun he => ?_, h.atHand.notMem, FrameTable.usable_put.symm ▸ h.atHand.lt⟩
    rw [page?_frames] at he
    exact h.atHand.empty he
  · rw [FrameTable.size_put]
    exact h.hand_lt

/-- A frame that is neither owned nor in the pool may be taken in hand. -/
theorem loosen (h : r.Coherent pins none) (hi : r.frames.info? f = some i) (ho : i.owner = none)
    (hpool : f ∉ r.frames.pool.toList) (hlt : f < r.frames.usable) : r.Coherent pins (some f) := by
  refine coherent_iff.2 ⟨h.toFormed, fun g _ => h.atFrame (by simp), ?_, h.hand_lt⟩
  rintro _ ⟨⟩
  refine ⟨fun he hs => ?_, hpool, hlt⟩
  cases (h.resident he hs).2.symm.trans hi
  cases ho

/-- The frame in hand becomes one that nobody has: it goes to the pool without pins, and
    waits with some. -/
theorem lay {pool : FramePool} (h : r.Coherent pins (some f))
    (hmem : ∀ g, g ∈ pool.toList ↔ g ∈ r.frames.pool.toList ∨ g = f ∧ pins f = 0) :
    Coherent pins none
      { r with frames := { r.frames.put f (.unowned (pins f)) with pool } } := by
  obtain ⟨i₀, hi₀⟩ := h.atHand.known
  have hself : (r.frames.put f (.unowned (pins f))).info? f = _ := FrameTable.info?_put_self hi₀
  have hsize : (r.frames.put f (.unowned (pins f))).size = r.frames.size := FrameTable.size_put
  refine coherent_iff.2 ⟨h.toFormed.of_frames, fun g _ => ?_, by simp, ?_⟩
  · by_cases hgf : g = f
    · subst hgf
      have hlt : g < (r.frames.put g (.unowned (pins g))).usable :=
        FrameTable.usable_put.symm ▸ h.atHand.lt
      refine .unowned hself (fun he => ?_) ?_ fun hle => absurd hlt (Nat.not_lt.2 hle)
      · rw [page?_frames] at he
        exact h.atHand.empty he
      · rw [hmem, or_iff_right h.atHand.notMem]
        exact ⟨fun hg => ⟨hg.2, hlt⟩, fun hg => ⟨rfl, hg.1⟩⟩
    · have hloose : some f ≠ some g := fun heq => hgf (Option.some.inj heq).symm
      refine (h.atFrame hloose).congr (by simp) ?_ hsize (by simp [hmem, hgf]) rfl
      exact (FrameTable.info?_put_ne hgf :
        (r.frames.put f (.unowned (pins f))).info? g = r.frames.info? g)
  · exact hsize ▸ h.hand_lt

/-- The frame in hand goes to the pool. -/
theorem giveBack (h : r.Coherent pins (some f)) (hpins : pins f = 0) :
    Coherent pins none
      { r with frames := { r.frames.put f {} with pool := r.frames.pool.push f } } := by
  have hmem : ∀ g, g ∈ (r.frames.pool.push f).toList ↔ g ∈ r.frames.pool.toList ∨ g = f ∧ pins f = 0 :=
    fun g => by
      rw [FramePool.toList_push h.atHand.notMem, List.mem_append, List.mem_singleton,
        and_iff_left hpins]
  have hlay := h.lay hmem
  rw [hpins] at hlay
  exact hlay

/-- The frame in hand waits for its last pin. -/
theorem defer (h : r.Coherent pins (some f)) (hpins : 0 < pins f) :
    Coherent pins none { r with frames := r.frames.put f ⟨none, {}, pins f, true⟩ } := by
  have hmem : ∀ g, g ∈ r.frames.pool.toList ↔ g ∈ r.frames.pool.toList ∨ g = f ∧ pins f = 0 :=
    fun g => by rw [or_iff_left fun hg => Nat.ne_of_gt hpins hg.2]
  have hlay := h.lay hmem
  rw [FrameInfo.unowned, decide_eq_true hpins] at hlay
  exact hlay

/-- The pins of a frame change: it has an owner, or waits for pins that it still has. -/
theorem repin (h : r.Coherent pins none) (hi : r.frames.info? f = some i)
    (hout : f ∉ r.frames.pool.toList) (hpins : ∀ g, g ≠ f → pins' g = pins g)
    (hwait : i.owner = none → 0 < pins' f ∧ i.freeWhenUnpinned = true)
    (hlt : f < r.frames.usable) :
    Coherent pins' none { r with frames := r.frames.put f { i with pinCount := pins' f } } := by
  have hself : (r.frames.put f { i with pinCount := pins' f }).info? f = _ :=
    FrameTable.info?_put_self hi
  have hat : r.CoherentAt pins f := h.atFrame (by simp)
  have hlt' : f < (r.frames.put f { i with pinCount := pins' f }).usable :=
    FrameTable.usable_put.symm ▸ hlt
  refine coherent_iff.2 ⟨h.toFormed.of_frames, fun g _ => ?_, by simp, ?_⟩
  · by_cases hgf : g = f
    · subst hgf
      obtain ⟨pid, e, he, hs, rfl⟩ | ⟨rfl, -⟩ := hat.held_or_unowned hi
      · refine .held hself (page?_frames.trans he) hs (fun he₁ hs₁ => ?_) hout hlt'
        rw [page?_frames] at he₁
        obtain ⟨rfl, rfl⟩ := h.unique he hs he₁ hs₁
        exact ⟨rfl, Option.some.inj (he₁.symm.trans he)⟩
      · obtain ⟨hpos, hfree⟩ := hwait rfl
        refine .unowned ?_ (fun he hs => ?_)
          (iff_of_false hout fun hzero => Nat.ne_of_gt hpos hzero.1)
          fun hle => absurd hlt' (Nat.not_lt.2 hle)
        · rw [hself, hfree, FrameInfo.unowned, FrameInfo.unowned, decide_eq_true hpos]
        · rw [page?_frames] at he
          cases hi.symm.trans (hat.resident he hs)
    · exact (h.atFrame (by simp)).congr (by simp) (FrameTable.info?_put_ne hgf)
        FrameTable.size_put .rfl (hpins g hgf)
  · rw [FrameTable.size_put]
    exact h.hand_lt

/-! ## Changes of processes only -/

/-- Processes may change in any way that keeps the resident pages. -/
theorem of_pages (h : r.Coherent pins loose) (hformed : r'.Formed) (hframes : r'.frames = r.frames)
    (hhand : r'.hand = r.hand)
    (hpage : ∀ {pid v e f}, e.state = .resident f →
      (r'.page? pid v = some e ↔ r.page? pid v = some e)) :
    r'.Coherent pins loose := by
  refine coherent_iff.2 ⟨hformed, fun f hf => ?_, fun f hf => ?_, ?_⟩
  · exact (h.atFrame hf).congr hpage (hframes ▸ rfl) (hframes ▸ rfl) (hframes ▸ .rfl) rfl
  · subst hf
    refine ⟨fun he hs => h.atHand.empty ((hpage hs).1 he) hs, ?_, ?_⟩
    · exact hframes.symm ▸ h.atHand.notMem
    · exact hframes.symm ▸ h.atHand.lt
  · rw [hframes, hhand]
    exact h.hand_lt

end Coherent

end Residency

end DemandPaging
