import WorkbookPlan.Settings.Basic
import WorkbookPlan.Step.Exchange
import WorkbookPlan.Text.Basic
import WorkbookPlan.Text.Case
import WorkbookPlan.Verdict.Exchange

/-! The risks of a plan. Each rule stands for itself and finds one risk or none. -/
namespace WorkbookPlan.Risk

def ofStructure (v : Verdict) : Option Risk :=
  let n := v.missing.length + v.cycles.length
  if n = 0 then none
  else some
    { level := .high
      description := toString n ++ " step dependency issue(s) (missing or circular)"
      mitigation :=
        "Fix the data model so every step depends only on steps that exist and precede it" }

def ofReferences (v : Verdict) : Option Risk :=
  let n := v.unresolved.length
  if n = 0 then none
  else some
    { level := .high
      description := toString n ++ " semantic dependency(ies) reference missing sheets or fields"
      mitigation := "Create the referenced sheets/fields first or correct the formulas" }

def ofLength (settings : Settings) (steps : List Step) : Option Risk :=
  let n := steps.length
  if n ≤ settings.stepCountThreshold then none
  else some
    { level := .medium
      description := "Plan has " ++ toString n ++ " steps and may take a long time to execute"
      mitigation := "Execute in stages and confirm intermediate results" }

def ofFormulas (settings : Settings) (steps : List Step) : Option Risk :=
  let n := steps.countP (·.action == Action.setFormula)
  if n ≤ settings.formulaCountThreshold then none
  else some
    { level := .medium
      description :=
        toString n ++ " formula steps; an early error can cascade to dependent columns"
      mitigation := "Verify each computed column before relying on downstream formulas" }

/-- A task that speaks of lookups across tables, in any letter case. -/
def ofTask (settings : Settings) (task : String) : Option Risk :=
  let small := Text.lower task.toList
  if settings.crossTableKeywords.any fun k => Text.contains (Text.lower k.toList) small then some
    { level := .medium
      description := "Task involves cross-table lookups"
      mitigation := "Make sure lookup keys exist and match in both tables" }
  else none

def ofOverwrites (steps : List Step) : Option Risk :=
  let n := steps.countP fun s => s.isWrite && s.preview.any (·.overwrites)
  if n = 0 then none
  else some
    { level := .medium
      description := toString n ++ " write step(s) overwrite existing data"
      mitigation := "Back up affected ranges before executing" }

def assess (settings : Settings) (steps : List Step) (v : Verdict) (task : String) : List Risk :=
  [ofStructure v, ofReferences v, ofLength settings steps, ofFormulas settings steps,
    ofTask settings task, ofOverwrites steps].filterMap id

end WorkbookPlan.Risk
