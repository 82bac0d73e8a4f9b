import Mathlib.Data.Nat.Init
import WorkbookPlan.Proofs.Plan.Grounded
import WorkbookPlan.Proofs.Repair.Patch

/-! What is satisfied was earned: the step was run, and no step is run before its dependencies are
satisfied. So all that a satisfied step needs is satisfied too, and of the steps of a repair all, as
soon as the last one is. -/
namespace WorkbookPlan.Plan

open Step

/-- The steps that were run waited for their dependencies. Nothing is known of those of `old`, which
were not pending in the beginning. -/
structure Earned (old : List StepId) (p : Plan) : Prop extends Linked p where
  known : ∀ id ∈ old, id ∈ p.ids
  deps : ∀ s ∈ p.steps, s.id ∉ old → s.status = .completed ∨ s.status = .failed →
    ∀ d ∈ s.dependsOn, p.dependencyState d = .satisfied

/-- A mark that says that steps were run goes to steps that had waited for their dependencies. -/
def Earns (p : Plan) (status : Status) (which : Step → Bool) : Prop :=
  status = .completed ∨ status = .failed → ∀ s ∈ p.steps, which s = true →
    ∀ d ∈ s.dependsOn, p.dependencyState d = .satisfied

/-- The steps of a repair stand in the plan, and the step that stands in for the failed one is the
one that the repair names. -/
structure Mended (old : List StepId) (p : Plan) (id : StepId) (r : Repair) : Prop where
  failed : ∃ s, p.step? id = some s ∧ s.status = .failed
  link : p.supersessions.get? id = r.replacement
  fits : ∃ m s parts, r.patch.Fits m s parts
  steps : ∀ t ∈ r.newSteps, t.id ∉ old ∧ ∃ u, p.step? t.id = some u ∧ u.dependsOn = t.dependsOn

variable {old : List StepId} {p q : Plan} {status : Status} {which : Step → Bool} {new : List Step}

theorem Linked.mem_ids_of_satisfied (hp : p.Linked) {id : StepId}
    (h : p.dependencyState id = .satisfied) : id ∈ p.ids := by
  obtain ⟨s, hs, -⟩ := hp.executed_of_satisfied h
  obtain ⟨hmem, rfl⟩ := step?_eq_some hs
  exact id_mem_ids hmem

/-- A satisfied step is completed, or it failed and what stands in for it is satisfied. -/
theorem Linked.completed_or_recovered (hp : p.Linked) {id : StepId}
    (h : p.dependencyState id = .satisfied) :
    ∃ s, p.step? id = some s ∧ (s.status = .completed ∨ s.status = .failed ∧
      ∃ next, p.supersessions.get? id = some next ∧ p.dependencyState next = .satisfied) := by
  cases hp.dependencyState_eq_iff.1 h with
  | completed hs hstatus => exact ⟨_, hs, .inl hstatus⟩
  | passed hs _ hnext hrest =>
    obtain ⟨t, ht, hfailed⟩ := hp.failed hnext
    exact ⟨t, ht, .inr ⟨hfailed, _, hnext, hp.dependencyState_eq_iff.2 hrest⟩⟩

/-- What is satisfied is a step of the plan, so no new step can change that. -/
theorem Grows.satisfied (hg : Grows p q) (hp : p.Linked) (hq : q.Linked) {id : StepId}
    (h : p.dependencyState id = .satisfied) : q.dependencyState id = .satisfied := by
  have hsame := hg.dependencyState_eq hp hq (fun _ => hp.mem_ids_of_satisfied h) (by simp [h])
  rw [hsame, h]

theorem Earned.satisfied_of_dependsOn (hp : p.Earned old) {s : Step} {id d : StepId}
    (hs : p.step? id = some s) (hid : id ∉ old) (h : p.dependencyState id = .satisfied)
    (hd : d ∈ s.dependsOn) : p.dependencyState d = .satisfied := by
  obtain ⟨hmem, rfl⟩ := step?_eq_some hs
  obtain ⟨t, ht, hstatus⟩ := hp.executed_of_satisfied h
  obtain rfl : s = t := Option.some.inj (hs.symm.trans ht)
  exact hp.deps s hmem hid (hstatus.imp_right And.left) d hd

theorem Earned.advances (hp : p.Earned old) (h : Advances p q status which new)
    (hmarked : p.Earns status which) : q.Earned old := by
  have hlinked : q.Linked := h.linked_of_linked hp.toLinked
  have hkeeps : ∀ {d}, p.dependencyState d = .satisfied → q.dependencyState d = .satisfied :=
    fun hd => h.grows.satisfied hp.toLinked hlinked hd
  refine { hlinked with known := fun id hid => ?_, deps := fun t ht hid hstatus d hd => ?_ }
  · rw [h.ids_eq]
    exact List.mem_append_left _ (hp.known id hid)
  · rcases h.mem_steps.1 ht with ⟨s, hs, hw, rfl⟩ | ⟨hold, -⟩ | hnew
    · exact hkeeps (hmarked hstatus s hs hw d hd)
    · exact hkeeps (hp.deps t hold hid hstatus d hd)
    · simp [h.new_pending t hnew] at hstatus

theorem earned_of_ofSteps (task taskKind : String) (steps : List Step) :
    (ofSteps task taskKind steps).Earned ((steps.filter (!·.isPending)).map (·.id)) where
  toLinked := linked_of_no_stand_ins fun _ => rfl
  known id hid := by
    obtain ⟨s, hs, rfl⟩ := List.mem_map.1 hid
    exact id_mem_ids (p := ofSteps task taskKind steps) (List.mem_filter.1 hs).1
  deps s hs hid hstatus := by
    refine absurd (List.mem_map.2 ⟨s, List.mem_filter.2 ⟨hs, ?_⟩, rfl⟩) hid
    rcases hstatus with hstatus | hstatus <;> simp [isPending, hstatus]

theorem Mended.grows {id : StepId} {r : Repair} (h : p.Mended old id r) (hg : Grows p q) :
    q.Mended old id r := by
  obtain ⟨s, hs, hstatus⟩ := h.failed
  have hdone : s.isPending = false := by simp [isPending, hstatus]
  obtain ⟨t, ht, -, hkept⟩ := hg.step hs
  refine ⟨⟨t, ht, (hkept hdone).trans hstatus⟩, (hg.link hs hdone).trans h.link, h.fits,
    fun new hnew => ?_⟩
  obtain ⟨hid, u, hu, hdeps⟩ := h.steps new hnew
  obtain ⟨v, hv, hsame, -⟩ := hg.step hu
  exact ⟨hid, v, hv, hsame.trans hdeps⟩

/-- Down the chain from the last new step, which stands in for the failed one. -/
theorem Mended.satisfied {id : StepId} {r : Repair} (h : p.Mended old id r)
    (hp : p.Earned old) (hid : p.dependencyState id = .satisfied) :
    ∀ t ∈ r.newSteps, p.dependencyState t.id = .satisfied := by
  obtain ⟨m, s, parts, hfits⟩ := h.fits
  have hlast : p.dependencyState (m.id r.newSteps.length) = .satisfied := by
    obtain ⟨s, hs, hstatus⟩ := h.failed
    cases hp.dependencyState_eq_iff.1 hid with
    | completed ht hcompleted =>
      obtain rfl := Option.some.inj (hs.symm.trans ht)
      simp [hstatus] at hcompleted
    | passed _ _ hnext hrest =>
      have hreplacement := h.link.symm.trans hnext
      have hname := hfits.replacement.resolve_left (by simp [Repair.patch, hreplacement])
      exact Option.some.inj (hreplacement.symm.trans hname) ▸ hp.dependencyState_eq_iff.2 hrest
  have hall : ∀ i ≤ r.newSteps.length, 1 ≤ i → p.dependencyState (m.id i) = .satisfied := by
    intro i hi hpos
    induction hi using Nat.decreasingInduction with
    | self => exact hlast
    | of_succ i hi ih =>
      have hstep := List.getElem?_eq_getElem hi
      have hname : r.newSteps[i].id = m.id (i + 1) := hfits.id_eq i _ hstep
      obtain ⟨hnew, u, hu, hdeps⟩ := h.steps _ (List.getElem_mem hi)
      obtain ⟨j, rfl⟩ : ∃ j, i = j + 1 := ⟨i - 1, by omega⟩
      have hdep : m.id (j + 1) ∈ u.dependsOn := hdeps ▸ hfits.chained j _ hstep
      exact hp.satisfied_of_dependsOn hu hnew (hname ▸ ih (Nat.le_add_left 1 _)) hdep
  intro t ht
  obtain ⟨i, hi⟩ := List.mem_iff_getElem?.1 ht
  have hlt := (List.getElem?_eq_some_iff.1 hi).1
  exact hfits.id_eq i t hi ▸ hall (i + 1) hlt (Nat.le_add_left 1 i)

end WorkbookPlan.Plan
