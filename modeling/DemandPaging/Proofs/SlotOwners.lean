/-
  The owners of the swap slots.

  In a sound kernel a page that is in a slot owns it.  The slots are `Exact` when, the other way
  round, every slot that has an owner has its page in it.  Steps and accesses keep them so
  (`Step.exact`), and so do all operations (`Reachable.exact`).
-/
import DemandPaging.Proofs.Operated

namespace DemandPaging

/-- Every slot that has an owner has the page of its owner in it. -/
def SlotTable.Exact (r : Residency) (slots : SlotTable) : Prop :=
  ∀ s pid v, slots.owner s = some ⟨pid, v⟩ → (r.page? pid v).map (·.state) = some (.swapped s)

theorem SlotTable.Exact.mono {r r' : Residency} {slots slots' : SlotTable} (h : slots.Exact r)
    (hpage : ∀ pid v, (r'.page? pid v).map (·.state) = (r.page? pid v).map (·.state))
    (hslots : ∀ s, slots'.owner s = slots.owner s) : slots'.Exact r' :=
  fun s pid v ho => (hpage pid v).trans (h s pid v ((hslots s).symm.trans ho))

namespace Kernel

variable {σ : Type} {c : Conduct σ} {pins : Frame → Nat} {k k' : Kernel σ} {pid : Pid} {v : Vpn}
  {e : PageEntry} {f : Frame} {p : Process} {log : List Access}

/-- A page that leaves its frame takes a free slot, or none. -/
theorem Vacated.exact {r : Except PagingError Unit} (hvac : Vacated c f pid v e k r k')
    (h : k.swap.slots.Exact k.residency) (he : k.residency.page? pid v = some e)
    (hs : e.state = .resident f) : k'.swap.slots.Exact k'.residency := by
  -- the slots of before are those of other pages
  have hother : ∀ {state : PageState} {s q w}, k.swap.slots.owner s = some ⟨q, w⟩ →
      ((k.residency.link pid v (e.evicted state) f {}).page? q w).map (·.state) =
        some (.swapped s) := by
    intro state s q w ho
    have hold := h s q w ho
    rw [Residency.page?_link he, if_neg, hold]
    rintro ⟨rfl, rfl⟩
    rw [he, Option.map_some, hs] at hold
    cases hold
  cases hvac with
  | dropped => exact fun _ _ _ ho => hother ho
  | saved _ hswap =>
    cases hswap with
    | done =>
      intro s q w ho
      have ho' := SlotTable.owner_allocate.symm.trans ho
      split at ho'
      · next hnext =>
        cases ho'
        rw [residency_withoutPage, Residency.page?_link_self he, hnext]
        rfl
      · exact hother ho'
  | refused _ hswap =>
    cases hswap with
    | failed _ hslots => exact h.mono (fun _ _ => rfl) hslots

/-- A page that comes in gives up its slot. -/
theorem Fetched.exact_withPage {page : Bytes} (hfetch : Fetched c p e k (.ok page) k')
    (h : k.swap.slots.Exact k.residency) (he : k.residency.page? pid v = some e) :
    (k'.withPage f pid v e page).swap.slots.Exact (k'.withPage f pid v e page).residency := by
  have howner := hfetch.owner
  obtain ⟨swap, sections, rfl, -, -⟩ := hfetch.rest
  intro t q w ho
  have ho' := (howner t).symm.trans ho
  split at ho'
  · cases ho'
  · next hnot =>
    have hold := h t q w ho'
    refine (congrArg (Option.map _) (Residency.page?_link he)).trans ?_
    rw [if_neg, hold]
    rintro ⟨rfl, rfl⟩
    rw [he, Option.map_some] at hold
    exact hnot (Option.some.inj hold)

/-- A process that ends leaves the slots of the others. -/
theorem Exited.exact {result : Except PagingError Unit} (hexit : Exited pins pid k result k')
    (h : k.swap.slots.Exact k.residency) : k'.swap.slots.Exact k'.residency := by
  cases hexit with
  | missing | again => exact h
  | @ended p r slots hp hlive hpages hrel =>
    intro s q w ho
    have ho' := SlotTable.owner_deallocateOwnedBy.symm.trans ho
    obtain ⟨hown, hq⟩ := Option.filter_eq_some_iff.1 ho'
    have hq' : q ≠ pid := by simpa using hq
    refine (congrArg (Option.map _) Residency.page?_finish).trans ?_
    rw [if_neg hq']
    exact h s q w (hrel.owner_eq_some hown)

theorem Step.exact (hstep : Step c pins k k') (h : k.swap.slots.Exact k.residency) :
    k'.swap.slots.Exact k'.residency := by
  cases hstep with
  | settled => exact h.mono (fun _ _ => Residency.states_absorb) fun _ => rfl
  | swept _ hswept => exact h.mono (fun _ _ => hswept.cools.states) fun _ => rfl
  | counted => exact h
  | pooled =>
    exact h.mono (fun _ _ => congrArg (Option.map _) Residency.page?_frames) fun _ => rfl
  | vacated _ he hs _ _ hvac => exact hvac.exact h he hs
  | loaded _ _ _ he _ hfetch _ => exact hfetch.exact_withPage h he
  | returned _ _ _ hfetch =>
    have howner := hfetch.owner_of_error
    obtain ⟨swap, sections, rfl, -, -⟩ := hfetch.rest
    exact h.mono (fun _ _ => congrArg (Option.map _) Residency.page?_frames) howner
  | spawned _ hspawn =>
    cases hspawn with
    | refused => exact h
    | made =>
      intro s q w ho
      obtain ⟨e, he, hs⟩ := Option.map_eq_some_iff.1 (h s q w ho)
      exact Option.map_eq_some_iff.2 ⟨e, Residency.page?_addProcess_of_some he, hs⟩
  | exited _ hexit => exact hexit.exact h
  | forgotten _ hgone =>
    exact h.mono (fun _ _ => congrArg (Option.map _) (Residency.page?_dropProcess hgone))
      fun _ => rfl

theorem Course.exact (hcourse : Course c pins k log k') (h : k.swap.slots.Exact k.residency) :
    k'.swap.slots.Exact k'.residency := by
  refine hcourse.preserves (I := fun k => k.swap.slots.Exact k.residency) h
    (fun _ _ hstep h => hstep.exact h) (fun k k' _ _ _ _ hacc h => ?_) fun _ _ h => h
  exact h.mono hacc.states fun _ => by rw [hacc.swap]

/-- No operation leaves a slot behind. -/
theorem Operated.exact {op : Operation} {pins' : Frame → Nat} (hop : Operated c pins k op pins' k')
    (h : k.swap.slots.Exact k.residency) : k'.swap.slots.Exact k'.residency := by
  cases hop with
  | ran _ hcourse => exact hcourse.exact h
  | pinned _ hcourse he =>
    exact (hcourse.exact h).mono (fun _ _ => Residency.state_link he rfl) fun _ => rfl
  | unpinned hun =>
    have hswap : k'.swap = k.swap := by cases hun <;> rfl
    exact h.mono (fun _ _ => congrArg _ hun.page?) fun _ => by rw [hswap]

/-- In every reachable kernel the slots that have an owner are those that its page is in. -/
theorem Reachable.exact [BackingStore σ] (h : k.Reachable) : k.swap.slots.Exact k.residency := by
  induction h with
  | @fresh pageSize config store sections picks k hboot =>
    have hblank : Checked.Ends (fun _ => True) (boot pageSize config store sections picks)
        fun k => ∀ s, k.swap.slots.owner s = none := by
      simp only [boot, Checked.ends_bind, Checked.ends_pure]
      refine Checked.ends_of_forall fun _ => Checked.ends_of_forall fun _ =>
        Checked.ends_of_forall fun _ s => ?_
      simp [SlotTable.owner_eq]
    intro s q w ho
    cases ((Checked.ends_of_eq_ok hboot).1 hblank s).symm.trans ho
  | step h hrun ih =>
    obtain ⟨pins, hsound, htlb⟩ := h.sound
    obtain ⟨pins', hop⟩ := (ends_operated .any hsound htlb).of_run hrun
    exact hop.exact ih

end Kernel

end DemandPaging
