import WorkbookPlan.Proofs.Run.Edits
import WorkbookPlan.Proofs.Run.Final
import WorkbookPlan.Proofs.Step.Founded

/-! Nothing becomes wrong with the names and the edges of the steps in a run: the check of them
reads neither states nor orders, and what a repair appends bears new names and waits only for steps
before it. -/
namespace WorkbookPlan

open Step

namespace StructureReport

def edges (s : Step) : StepId × List StepId :=
  (s.id, s.dependsOn)

theorem ofSteps_congr {steps steps' : List Step} (h : steps.map edges = steps'.map edges) :
    ofSteps steps = ofSteps steps' := by
  have hids : steps.map (·.id) = steps'.map (·.id) := by
    simpa [Function.comp_def, edges] using congrArg (List.map (·.1)) h
  have hgraph : Graph.ofSteps steps = Graph.ofSteps steps' := by
    have hdeps := congrArg
      (List.map fun e => e.2.filterMap (Graph.lastIndex? (steps.map (·.id)))) h
    simpa [Graph.ofSteps, Function.comp_def, edges, hids] using hdeps
  have hdangling : dangling steps = dangling steps' := by
    have hmissing := congrArg (List.flatMap fun e =>
      (e.2.filter (!(steps.map (·.id)).contains ·)).map (Dangling.mk e.1)) h
    simpa only [dangling, List.flatMap_map, edges, ← hids] using hmissing
  have hname : ∀ i : Nat, steps[i]?.map (·.id) = steps'[i]?.map (·.id) := fun i => by
    rw [← List.getElem?_map, hids, List.getElem?_map]
  simp only [ofSteps, stuckIds?, hgraph, hdangling, hids, hname]

theorem map_edges_markWhere {status : Status} {which : Step → Bool} {steps : List Step} :
    (markWhere status which steps).map edges = steps.map edges := by
  rw [markWhere, List.map_map]
  refine List.map_congr_left fun s _ => ?_
  dsimp only [Function.comp_apply]
  split <;> rfl

theorem map_edges_renumber (order : Nat) (steps : List Step) :
    (Plan.renumber order steps).map edges = steps.map edges := by
  induction steps generalizing order with
  | nil => rfl
  | cons s steps ih => rw [Plan.renumber, List.map_cons, List.map_cons, ih, edges, edges]

/-- The new steps of a repair can be put behind the others. -/
theorem ofSteps_append_of_fits {steps : List Step} {m : Mint} {failed : Step} {parts : Nat}
    {patch : Patch} (h : ofSteps steps = {}) (hfits : patch.Fits m failed parts)
    (hdeps : ∀ d ∈ failed.dependsOn, d ∈ steps.map (·.id))
    (hnodup : (steps.map (·.id) ++ patch.steps.map (·.id)).Nodup) (order : Nat) :
    ofSteps (steps ++ Plan.renumber order patch.steps) = {} := by
  have hedges : (steps ++ Plan.renumber order patch.steps).map edges =
      (steps ++ patch.steps).map edges := by
    rw [List.map_append, map_edges_renumber, List.map_append]
  rw [ofSteps_congr hedges]
  refine ofSteps_append_eq_empty h (by rwa [List.map_append]) fun i s hs d hd => ?_
  rcases hfits.dependsOn i s hs d hd with hold | ⟨j, hj, rfl⟩
  · exact .inl (hdeps d hold)
  · have hlt : j < patch.steps.length := Nat.lt_trans hj (List.getElem?_eq_some_iff.1 hs).1
    have hstep := List.getElem?_eq_getElem hlt
    exact .inr ⟨j, _, hj, hstep, hfits.id_eq j _ hstep⟩

end StructureReport

namespace Plan

open StructureReport

variable {settings : Settings} {tokens : Nat → String} {p q : Plan}

theorem ofSteps_extend (hclean : StructureReport.ofSteps p.steps = {}) {s : Step} (hs : s ∈ p.steps)
    (token error : String) (context : RepairContext)
    (hnew : ∀ t ∈ (Repair.ofStep settings token s error context).newSteps, t.id ∉ p.ids) :
    StructureReport.ofSteps (p.extend s.id (Repair.ofStep settings token s error context).newSteps
      (Repair.ofStep settings token s error context).replacement).steps = {} := by
  obtain ⟨hnodup, hclosed, -⟩ := ofSteps_eq_empty hclean
  rw [extend]
  by_cases hcount : context.count < settings.maxRepairs
  · have hfits : (Repair.ofStep settings token s error context).patch.Fits
        ⟨context.count + 1, token⟩ s settings.splitParts := Repair.fits_ofStep hcount
    refine ofSteps_append_of_fits hclean hfits (hclosed s hs) ?_ _
    refine List.nodup_append.2 ⟨hnodup, hfits.nodup_ids, fun a ha b hb hab => ?_⟩
    obtain ⟨t, ht, rfl⟩ := List.mem_map.1 hb
    exact hnew t ht (hab ▸ ha)
  · have hnone : (Repair.ofStep settings token s error context).newSteps = [] :=
      Repair.newSteps_ofStep (Nat.le_of_not_lt hcount)
    simpa [hnone, renumber] using hclean

theorem Reworks.clean (h : Reworks settings tokens p q) (hp : p.Tidy tokens)
    (hclean : StructureReport.ofSteps p.steps = {}) : StructureReport.ofSteps q.steps = {} := by
  cases h with
  | mark _ _ hsteps _ => rw [hsteps, ofSteps_congr map_edges_markWhere, hclean]
  | append hs hfits hsteps _ =>
    have hdeps := (ofSteps_eq_empty hclean).2.1 _ hs
    rw [hsteps]
    exact ofSteps_append_of_fits hclean hfits hdeps (hp.nodup_append hfits) _
  | leave hsteps _ => rw [hsteps, hclean]

theorem Edits.clean (h : Edits settings tokens p q) (hp : p.Tidy tokens)
    (hclean : StructureReport.ofSteps p.steps = {}) : StructureReport.ofSteps q.steps = {} := by
  induction h with
  | refl => exact hclean
  | tail hedits hedit ih =>
    have htidy := Edits.tidy hedits hp
    exact (hedit.reworks htidy.distinct).clean htidy ih

variable {σ : Type _}

/-- A repair leaves the names and the edges of the steps in order, so they are in order at every
moment of a run. -/
theorem run_keeps_structure (settings : Settings) (tokens : Nat → String) (execute : Executor σ)
    (spare : Nat) (kept : σ) (p : Plan) (hclean : StructureReport.ofSteps p.steps = {}) :
    (∀ (config : Settings) (token error : String) (context : RepairContext), ∀ s ∈ p.steps,
      let r := Repair.ofStep config token s error context
      (∀ t ∈ r.newSteps, t.id ∉ p.ids) →
        StructureReport.ofSteps (p.extend s.id r.newSteps r.replacement).steps = {}) ∧
    ((∀ id ∈ p.ids, ¬ Minted tokens p.repairCount id) →
      (∀ q ∈ p.moments settings tokens execute spare kept,
        StructureReport.ofSteps q.plan.steps = {}) ∧
      (p.refusal? = none → ∃ r, p.run settings tokens execute spare kept = some (.ok r) ∧
        (p.moments settings tokens execute spare kept).getLast? = some r)) := by
  refine ⟨fun config token error context s hs => ofSteps_extend hclean hs token error context,
    fun hfresh => ?_⟩
  have ht : p.Tidy tokens := ⟨(ofSteps_eq_empty hclean).1, hfresh⟩
  cases hp : p.refusal? with
  | some e =>
    have hnone : p.moments settings tokens execute spare kept = [] := by
      simp [moments, starts, hp]
    exact ⟨by simp [hnone], fun h => absurd h (Option.some_ne_none e)⟩
  | none =>
    obtain ⟨r, hrun, hlast, hleads⟩ := run_leads settings execute spare kept hp ht
    exact ⟨fun q hq => (hleads.between q hq).1.clean ht hclean, fun _ => ⟨r, hrun, hlast⟩⟩

/-- The sheet that the first step misses is made before the step is tried again. -/
theorem run_keeps_structure_pair : (StructureReport.ofSteps pair.steps = {} ∧
      ∀ id ∈ pair.ids, ¬ Minted (fun _ => "t") pair.repairCount id) ∧
    ∃ r, pair.run {} (fun _ => "t") (fun s (_ : Unit) =>
        (if s.id = "a" then .failure "Sheet 'Orders' not found" else .ok .null, ())) 0 () =
          some (.ok r) ∧ StructureReport.ofSteps r.plan.steps = {} := by
  have hfresh := (tidy_pair fun _ => "t").fresh
  obtain ⟨hall, hends⟩ := (run_keeps_structure {} (fun _ => "t") (fun s (_ : Unit) =>
    (if s.id = "a" then .failure "Sheet 'Orders' not found" else .ok .null, ())) 0 () pair
    clean_pair).2 hfresh
  obtain ⟨r, hrun, hlast⟩ := hends rfl
  exact ⟨⟨clean_pair, hfresh⟩, r, hrun, hall r (List.mem_of_getLast? hlast)⟩

end Plan

end WorkbookPlan
