import WorkbookPlan.Proofs.Step.Founded
import WorkbookPlan.Verdict.Check

/-! What the check finds, in one equation; what can be told from a verdict that passed, and what the
references for the tokens of the calculation chain say. -/
namespace WorkbookPlan

open Relation Step

/-- The reference stands for a token of a computation. -/
structure Reference.IsOf (c : Computation) (token : String) (r : Reference) : Prop where
  kind : r.kind = .formula
  source : (r.sourceSheet, r.sourceField) = (c.sheet, c.field)
  target : splitToken? token = some (r.targetSheet, r.targetField)

/-- The verdict names a step that produces what a token of a computation names. -/
def Verdict.Resolves (v : Verdict) (c : Computation) (token : String) (id : StepId) : Prop :=
  ∃ r ∈ v.references, r.IsOf c token ∧ r.stepId = some id

namespace Check

def Finding.reference? : Finding → Option Reference
  | .reference r => some r
  | .malformed _ => none

def Finding.warning? (schema : Schema) : Finding → Option String
  | .malformed warning => some warning
  | .reference r => if r.isResolved then none else some (explain schema r)

def repeatedText (id : StepId) : String :=
  "Duplicate step id '" ++ id ++ "'"

variable {steps : List Step} {schema : Option Schema} {owners : Owners}
  {review : Option SchemaReview}

theorem foldl_record (schema : Schema) (found : List Finding) (v : Verdict) :
    found.foldl (record schema) v =
      { v with
        references := v.references ++ found.filterMap Finding.reference?
        unresolved := v.unresolved ++
          (found.filterMap Finding.reference?).filter (!·.isResolved)
        warnings := v.warnings ++ found.filterMap (Finding.warning? schema) } := by
  induction found generalizing v with
  | nil => simp
  | cons f found ih =>
    rw [List.foldl_cons, ih]
    cases f with
    | malformed warning =>
      simp [record, List.filterMap_cons, Finding.reference?, Finding.warning?]
    | reference r =>
      cases hr : r.isResolved <;>
        simp [record, Finding.reference?, Finding.warning?, hr]

/-- The verdict as a whole. What is wrong with the names of the steps is told as an error only. -/
theorem run_eq (steps : List Step) (schema : Option Schema) (owners : Owners)
    (review : Option SchemaReview) :
    let report := StructureReport.ofSteps steps
    let found := schema.elim [] (findings · owners)
    let refs := found.filterMap Finding.reference?
    let unresolved := refs.filter (!·.isResolved)
    let cycles := report.cycles ++ review.elim [] (·.cycles)
    run steps schema owners review =
      { passed := report.missing.isEmpty && cycles.isEmpty && unresolved.isEmpty
        missing := report.missing
        cycles := cycles
        references := refs
        unresolved := unresolved
        errors := report.duplicates.map repeatedText ++ review.elim [] (·.errors)
        warnings := schema.elim [] (fun s => found.filterMap (Finding.warning? s)) ++
          review.elim [] (·.warnings) } := by
  intro report found refs unresolved cycles
  let checked := schema.elim (structural steps)
    fun s => (findings s owners).foldl (record s) (structural steps)
  have hrun : run steps schema owners review =
      (review.elim checked (withReview checked)).settle := by
    cases schema <;> cases review <;> rfl
  have hchecked : checked =
      { structural steps with
        references := refs
        unresolved := unresolved
        warnings := schema.elim [] fun s => found.filterMap (Finding.warning? s) } := by
    cases schema with
    | none => rfl
    | some s => exact foldl_record s (findings s owners) (structural steps)
  have hreview : review.elim checked (withReview checked) =
      { checked with
        cycles := checked.cycles ++ review.elim [] (·.cycles)
        errors := checked.errors ++ review.elim [] (·.errors)
        warnings := checked.warnings ++ review.elim [] (·.warnings) } := by
    cases review with
    | none => simp only [Option.elim_none, List.append_nil]
    | some r => rfl
  rw [hrun, hreview, hchecked]
  rfl

theorem references_run (schema : Schema) :
    (run steps (some schema) owners review).references =
      (findings schema owners).filterMap Finding.reference? := by
  rw [run_eq]
  rfl

theorem unresolved_run : (run steps schema owners review).unresolved =
    (run steps schema owners review).references.filter (!·.isResolved) := by
  rw [run_eq]

theorem passed_iff : (run steps schema owners review).passed = true ↔
    (StructureReport.ofSteps steps).missing = [] ∧ (StructureReport.ofSteps steps).cycles = [] ∧
      review.elim [] (·.cycles) = [] ∧ (run steps schema owners review).unresolved = [] := by
  rw [run_eq]
  simp [and_assoc]

/-- Two steps of one name pass, though an error tells of them. -/
theorem run_passed_repeated :
    let s : Step := { id := "a", order := 1, stage := .setFormulas, action := Action.setFormula }
    let v := run [s, s] none .empty none
    v.passed = true ∧ v.errors = ["Duplicate step id 'a'"] ∧ ¬ ([s, s].map (·.id)).Nodup := by
  decide +kernel

/-- If a check passed, each step waits for steps of the list, and there is no cycle where a name
stands for the last step that bears it. -/
theorem run_passed (h : (run steps schema owners review).passed = true) :
    (∀ s ∈ steps, ∀ d ∈ s.dependsOn, d ∈ steps.map (·.id)) ∧
      (∀ i, ¬ TransGen (fun i j => j ∈ (Graph.ofSteps steps).depsOf i) i i) ∧
      ((∀ id, repeatedText id ∉ (run steps schema owners review).errors) →
        StructureReport.ofSteps steps = {} ∧ (steps.map (·.id)).Nodup ∧
          ∀ id, ¬ TransGen (Needs steps) id id) := by
  obtain ⟨hmissing, hcycles, -, -⟩ := passed_iff.1 h
  have hclosed := StructureReport.mem_ids_of_missing hmissing
  have hstuck := StructureReport.stuck_of_cycles hcycles
  refine ⟨hclosed, Graph.not_transGen_of_stuck (fun i j hj => ?_) hstuck, fun herrors => ?_⟩
  · rw [Graph.size_ofSteps]
    exact Graph.lt_of_mem_depsOf_ofSteps hj
  · have hduplicates : (StructureReport.ofSteps steps).duplicates = [] := by
      refine List.eq_nil_iff_forall_not_mem.2 fun id hid => herrors id ?_
      rw [run_eq]
      exact List.mem_append_left _ (List.mem_map_of_mem hid)
    have hempty : StructureReport.ofSteps steps = {} :=
      StructureReport.eq_empty_iff.2 ⟨hmissing, hduplicates, hcycles⟩
    have hnodup := (StructureReport.ofSteps_eq_empty hempty).1
    exact ⟨hempty, hnodup, Graph.not_transGen_needs hnodup hclosed hstuck⟩

/-- One step waits for another, and nothing is wrong with them. -/
theorem run_passed_pair :
    let a : Step := { id := "a", order := 1, stage := .createStructure, action := "a" }
    let b : Step := { id := "b", order := 2, stage := .setFormulas, action := "b", dependsOn := ["a"] }
    (run [a, b] none .empty none).passed = true ∧
      ∀ id, ¬ TransGen (Needs [a, b]) id id := by
  intro a b
  have hpassed : (run [a, b] none .empty none).passed = true := by decide +kernel
  have herrors : (run [a, b] none .empty none).errors = [] := by decide +kernel
  obtain ⟨-, -, hclean⟩ := run_passed hpassed
  exact ⟨hpassed, (hclean fun id => by simp [herrors]).2.2⟩

/-- These names lead round in a circle, but the circle is cut, since the last step named `a` waits for
nothing. -/
example :
    let s (id : StepId) (dependsOn : List StepId) : Step :=
      { id, order := 1, stage := .setFormulas, action := Action.setFormula, dependsOn }
    (run [s "a" ["b"], s "b" ["a"], s "a" []] none .empty none).passed = true := by
  decide +kernel

section References

variable {schema : Schema} {r : Reference}

theorem mem_of_mem_distinctTargets {refs : List Reference} (h : r ∈ distinctTargets refs) :
    r ∈ refs := by
  have hfold := List.foldlRecOn (motive := fun acc : List Reference => acc ⊆ refs) refs
    (fun acc r =>
      if acc.any (fun a => a.targetSheet == r.targetSheet && a.targetField == r.targetField) then acc
      else acc ++ [r])
    (List.nil_subset _) fun acc hacc x hx => by
      split
      · exact hacc
      · exact List.append_subset.2 ⟨hacc, by simpa using hx⟩
  exact hfold h

theorem kind_of_mem_lookupReferences {own : Table} {field formula : String}
    (h : r ∈ lookupReferences schema owners own field formula) : r.kind = .lookup := by
  rcases List.mem_append.1 h with h | h
  · obtain ⟨t, -, ht⟩ := List.mem_flatMap.1 h
    split at ht
    · exact List.mem_singleton.1 ht ▸ rfl
    · obtain ⟨n, -, rfl⟩ := List.mem_map.1 ht
      rfl
  · obtain ⟨mention, -, rfl⟩ := List.mem_map.1 h
    rfl

theorem kind_of_mem_lookupFindings (h : .reference r ∈ lookupFindings schema owners) :
    r.kind = .lookup := by
  obtain ⟨t, -, h⟩ := List.mem_flatMap.1 h
  obtain ⟨f, -, h⟩ := List.mem_flatMap.1 h
  split at h
  · cases h
  · split at h
    · obtain ⟨x, hx, hsame⟩ := List.mem_map.1 h
      cases hsame
      exact kind_of_mem_lookupReferences (mem_of_mem_distinctTargets hx)
    · cases h

theorem kind_of_mem_sourceFindings (h : .reference r ∈ sourceFindings schema owners) :
    r.kind = .dataSource := by
  obtain ⟨t, -, h⟩ := List.mem_flatMap.1 h
  obtain ⟨source, -, hsame⟩ := List.mem_map.1 h
  cases hsame
  rfl

theorem mem_references_iff : r ∈ (run steps (some schema) owners review).references ↔
    .reference r ∈ findings schema owners := by
  rw [references_run, List.mem_filterMap]
  constructor
  · rintro ⟨f, hf, hr⟩
    cases f with
    | reference x => exact Option.some.inj hr ▸ hf
    | malformed warning => cases hr
  · exact fun h => ⟨_, h, rfl⟩

/-- A formula reference stands for a token of the calculation chain. -/
theorem eq_of_mem_findings (h : .reference r ∈ findings schema owners) (hkind : r.kind = .formula) :
    ∃ c ∈ schema.calculationChain, ∃ token ∈ c.dependencies, ∃ sheet field,
      splitToken? token = some (sheet, field) ∧
      r = fieldReference schema owners (c.sheet, c.field) sheet field .formula := by
  rcases List.mem_append.1 h with h | h
  · rcases List.mem_append.1 h with h | h
    · obtain ⟨c, hc, h⟩ := List.mem_flatMap.1 h
      obtain ⟨token, htoken, h⟩ := List.mem_map.1 h
      unfold tokenFinding at h
      cases hsplit : splitToken? token with
      | none => simp [hsplit] at h
      | some target =>
        rw [hsplit] at h
        cases h
        exact ⟨c, hc, token, htoken, target.1, target.2, hsplit, rfl⟩
    · rw [kind_of_mem_lookupFindings h] at hkind
      cases hkind
  · rw [kind_of_mem_sourceFindings h] at hkind
    cases hkind

/-- The references for a token are the one that it is looked up with. -/
theorem mem_references_and_isOf_iff {c : Computation} (hc : c ∈ schema.calculationChain)
    {token : String} (htoken : token ∈ c.dependencies) {sheet field : String}
    (hsplit : splitToken? token = some (sheet, field)) :
    r ∈ (run steps (some schema) owners review).references ∧ r.IsOf c token ↔
      r = fieldReference schema owners (c.sheet, c.field) sheet field .formula := by
  constructor
  · rintro ⟨hr, hkind, hsource, htarget⟩
    obtain ⟨_, -, _, -, _, _, -, rfl⟩ := eq_of_mem_findings (mem_references_iff.1 hr) hkind
    obtain ⟨hsheet, hfield⟩ := Prod.mk.inj hsource
    obtain ⟨rfl, rfl⟩ := Prod.mk.inj (Option.some.inj (hsplit.symm.trans htarget))
    simp only [fieldReference] at hsheet hfield ⊢
    rw [hsheet, hfield]
  · rintro rfl
    refine ⟨mem_references_iff.2 ?_, rfl, rfl, hsplit⟩
    have hfinding : tokenFinding schema owners c token =
        .reference (fieldReference schema owners (c.sheet, c.field) sheet field .formula) := by
      rw [tokenFinding, hsplit]
    refine List.mem_append_left _ (List.mem_append_left _ ?_)
    exact List.mem_flatMap.2 ⟨c, hc, hfinding ▸ List.mem_map_of_mem htoken⟩

/-- A token is resolved to the owner of the field that it names. -/
theorem resolves_iff {c : Computation} (hc : c ∈ schema.calculationChain) {token : String}
    (htoken : token ∈ c.dependencies) {id : StepId} :
    (run steps (some schema) owners review).Resolves c token id ↔
      owners.ofToken? token = some id := by
  constructor
  · rintro ⟨r, hr, hof, hid⟩
    have hr := (mem_references_and_isOf_iff hc htoken hof.target).1 ⟨hr, hof⟩
    rw [hr] at hid
    rw [Owners.ofToken?, hof.target]
    exact hid
  · intro howner
    obtain ⟨⟨sheet, field⟩, hsplit, howner⟩ := Option.bind_eq_some_iff.1 howner
    let r := fieldReference schema owners (c.sheet, c.field) sheet field .formula
    have hr : r ∈ (run steps (some schema) owners review).references ∧ r.IsOf c token :=
      (mem_references_and_isOf_iff hc htoken hsplit).2 rfl
    exact ⟨r, hr.1, hr.2, howner⟩

end References

end Check

end WorkbookPlan
