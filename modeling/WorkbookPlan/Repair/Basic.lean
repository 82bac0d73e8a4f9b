import WorkbookPlan.Repair.Diagnosis
import WorkbookPlan.Repair.Patch
import WorkbookPlan.Settings.Basic

/-! Repairs: a failed step is diagnosed, a strategy is chosen, and new steps are made. -/
namespace WorkbookPlan

structure RepairContext where
  /-- Repairs so far. -/
  count : Nat
  completed : List StepId := []
  /-- Stands in for an error text that is blank. -/
  details : Option String := none
  deriving DecidableEq, Repr

structure Repair where
  strategy : Strategy
  newSteps : List Step
  canContinue : Bool
  needsConfirmation : Bool
  diagnosis : Diagnosis
  /-- The new step that stands in for the failed one. -/
  replacement : Option StepId := none
  recommendation : Option String := none
  deriving DecidableEq, Repr

namespace RepairContext

/-- The error text, or the details if it is blank. -/
def errorText (c : RepairContext) (error : String) : String :=
  if (Text.trim error.toList).isEmpty then c.details.getD "" else error

end RepairContext

namespace Repair

/-- What to tell when the run stops or values are cleared. -/
def recommend (failed : Step) (count : Nat) (diagnosis : Diagnosis) : Strategy → Option String
  | .abort =>
    some ("Stopped after " ++ toString count ++ " repair attempt(s). " ++ diagnosis.cause
      ++ " Review the step manually before running the plan again.")
  | .rollBack =>
    some ("Values written by step " ++ failed.id
      ++ " will be cleared. Review the step before retrying it.")
  | _ => none

/-- The repair of a failed step. Names of new steps carry the number of the repair and the token. -/
def ofStep (settings : Settings) (token : String) (failed : Step) (error : String)
    (context : RepairContext) : Repair :=
  let text := context.errorText error
  let diagnosis := Diagnosis.ofStep failed text context.count settings.maxRepairs
  let strategy := Strategy.choose diagnosis.failure context.count settings.maxRepairs
  let patch :=
    Patch.ofStrategy ⟨context.count + 1, token⟩ failed text settings.splitParts strategy
  { strategy := strategy
    newSteps := patch.steps
    canContinue := strategy.canContinue
    needsConfirmation := strategy.needsConfirmation
    diagnosis := diagnosis
    replacement := patch.replacement
    recommendation := recommend failed context.count diagnosis strategy }

end Repair

instance : Wire RepairContext where
  encode c := .object <|
    [("replanCount", Json.nat c.count), ("completedSteps", encode c.completed)]
      ++ fieldIfSome "errorDetails" encode c.details
  decode? j := do
    let parts ← j.parts? ["replanCount", "completedSteps", "errorDetails"]
    let count ← required parts Json.nat32? "replanCount"
    let completed ← withDefault parts [] decode? "completedSteps"
    let details ← nullable parts decode? "errorDetails"
    some { count, completed, details }

instance : Wire Repair where
  encode r := .object <|
    [("strategy", encode r.strategy), ("newSteps", encode r.newSteps),
      ("canContinue", encode r.canContinue),
      ("requiresUserConfirmation", encode r.needsConfirmation), ("analysis", encode r.diagnosis)]
      ++ fieldIfSome "replacementStepId" encode r.replacement
      ++ fieldIfSome "recommendation" encode r.recommendation
  decode? j := do
    let parts ← j.parts?
      ["strategy", "newSteps", "canContinue", "requiresUserConfirmation", "analysis",
        "replacementStepId", "recommendation"]
    let strategy ← required parts decode? "strategy"
    let newSteps ← required parts decode? "newSteps"
    let canContinue ← required parts decode? "canContinue"
    let needsConfirmation ← required parts decode? "requiresUserConfirmation"
    let diagnosis ← required parts decode? "analysis"
    let replacement ← nullable parts decode? "replacementStepId"
    let recommendation ← nullable parts decode? "recommendation"
    some ⟨strategy, newSteps, canContinue, needsConfirmation, diagnosis, replacement,
      recommendation⟩

end WorkbookPlan
