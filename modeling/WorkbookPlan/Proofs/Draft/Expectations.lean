import WorkbookPlan.Plan.Build
import WorkbookPlan.Proofs.Draft.Parts

/-! What a plan expects of the whole workbook. It is what its steps expect that make sheets, write headers
and set formulas, each in the place of its step. -/
namespace WorkbookPlan

namespace Draft

variable {settings : Settings} {schema : Schema}

/-- The actions whose work is looked at when all is done. -/
def lastingActions : List String :=
  [Action.createSheet, Action.writeHeaders, Action.setFormula]

theorem map_expectation_withTables (d : Draft) (tables : List Table) :
    (tables.foldl withTable d).steps.map (·.expectation) = d.steps.map (·.expectation) ++
      tables.flatMap fun t => [.sheetExists t.name, .headersMatch t.name t.fieldNames] := by
  induction tables generalizing d with
  | nil => simp
  | cons t tables ih =>
    rw [List.foldl_cons, ih, steps_withTable, List.flatMap_cons]
    simp [creation, createSheet, heading, writeHeaders]

/-- The rules and the verification leave nothing to look at. -/
theorem filter_lasting (settings : Settings) (schema : Schema) :
    (ofSchema settings schema).steps.filter (·.action ∈ lastingActions) =
      (sheetsOf schema).steps ++ (ofSchema settings schema).formulaSteps := by
  obtain ⟨order, hsteps⟩ := exists_steps_eq settings schema
  have hsheets : (sheetsOf schema).steps.filter (·.action ∈ lastingActions) =
      (sheetsOf schema).steps := by
    refine List.filter_eq_self.2 fun s hs => ?_
    rcases action_sheetsOf hs with h | h <;>
      · rw [h]
        decide
  have hformulas : (ofSchema settings schema).formulaSteps.filter (·.action ∈ lastingActions) =
      (ofSchema settings schema).formulaSteps := by
    refine List.filter_eq_self.2 fun s hs => ?_
    have haction : s.action = Action.setFormula := by simpa using (List.mem_filter.1 hs).2
    rw [haction]
    decide
  have hrules : (ruleSteps settings schema).filter (·.action ∈ lastingActions) = [] := by
    refine List.filter_eq_nil_iff.2 fun s hs => ?_
    obtain ⟨x, -, rfl⟩ := List.mem_map.1 hs
    exact (by decide : ¬ decide (Action.addValidation ∈ lastingActions) = true)
  have hlast : (if (ofSchema settings schema).formulaSteps = [] then []
      else [verifyResults settings order (ofSchema settings schema).formulaSteps]).filter
        (·.action ∈ lastingActions) = [] := by
    split
    · rfl
    · exact List.filter_cons_of_neg
        (by decide : ¬ decide (Action.verifyResults ∈ lastingActions) = true)
  rw [hsteps, List.filter_append, List.filter_append, List.filter_append, hsheets, hformulas, hrules,
    hlast, List.append_nil, List.append_nil]

theorem expectations_ofSchema (settings : Settings) (schema : Schema) :
    let d := ofSchema settings schema
    d.expectations settings schema =
      (d.steps.filter (·.action ∈ lastingActions)).map (·.expectation) := by
  intro d
  have htables : d.tables.filterMap schema.table? = schema.orderedTables := by
    rw [tables_ofSchema, schema.filterMap_table?_orderedTables]
  have hsheets : (sheetsOf schema).steps.map (·.expectation) = schema.orderedTables.flatMap
      fun t => [.sheetExists t.name, .headersMatch t.name t.fieldNames] :=
    map_expectation_withTables _ _
  have hformulas : d.formulaSteps.map (·.expectation) = schema.calculationChain.map fun c =>
      .noErrorValues c.sheet (schema.columnOf? c.sheet c.field) settings.formulaSampleCount :=
    map_formulaSteps fun _ _ => rfl
  rw [filter_lasting, List.map_append, hsheets, hformulas, expectations, htables]

end Draft

namespace Plan

/-- What a plan expects of the workbook is what its steps expect that make a sheet, write headers or
set a formula. -/
theorem build_expectations (settings : Settings) (request : PlanRequest) (schema : Option Schema)
    (review : Option SchemaReview) :
    let p := build settings request schema review
    p.expectations = (p.steps.filter fun s =>
      s.action ∈ [Action.createSheet, Action.writeHeaders, Action.setFormula]).map (·.expectation) := by
  intro p
  cases hobstacle : (Draft.ofSchema? settings schema).obstacle? settings schema with
  | some obstacle =>
    have hp : p = asking request.task request.taskKind
        (Question.ask settings obstacle request.task) := by
      simp only [p, build, hobstacle]
    rw [hp]
    rfl
  | none =>
    have hp : p = ofDraft settings request schema review (Draft.ofSchema? settings schema) := by
      simp only [p, build, hobstacle]
    rw [hp]
    cases schema with
    | none => rfl
    | some schema => exact Draft.expectations_ofSchema settings schema

end Plan

end WorkbookPlan
