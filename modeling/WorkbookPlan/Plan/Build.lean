import WorkbookPlan.Draft.Basic
import WorkbookPlan.Plan.Exchange
import WorkbookPlan.Question.Detect
import WorkbookPlan.Verdict.Check
import WorkbookPlan.Verdict.Risks

/-! From a request and a schema to a plan that is ready, or to one that asks for more detail. -/
namespace WorkbookPlan

structure PlanRequest where
  task : String
  taskKind : String := ""
  deriving DecidableEq, Repr

instance : Wire PlanRequest where
  encode r := .object [("taskDescription", encode r.task), ("taskType", encode r.taskKind)]
  decode? j := do
    let parts ← j.parts? ["taskDescription", "taskType"]
    let task ← required parts decode? "taskDescription"
    let taskKind ← withDefault parts "" decode? "taskType"
    some { task, taskKind }

namespace Draft

/-- What stands in the way of running a draft: it has no steps, or a step with an action that is not
allowed. -/
def obstacle? (settings : Settings) (schema : Option Schema) (d : Draft) : Option Obstacle :=
  if d.isEmpty then some (if schema.isNone then .noSchema else .noSteps)
  else
    (d.steps.find? fun s => settings.disallowedActions.contains s.action).map fun s =>
      .disallowed s.action

/-- Each table is there with its headers, and each computed column is free of error values. -/
def expectations (settings : Settings) (schema : Schema) (d : Draft) : List Expectation :=
  (d.tables.filterMap schema.table?).flatMap (fun t =>
      [.sheetExists t.name, .headersMatch t.name t.fieldNames])
    ++ schema.calculationChain.map fun c =>
      .noErrorValues c.sheet (schema.columnOf? c.sheet c.field) settings.formulaSampleCount

end Draft

namespace Plan

def ofDraft (settings : Settings) (request : PlanRequest) (schema : Option Schema)
    (review : Option SchemaReview) (d : Draft) : Plan :=
  let verdict := Check.run d.steps schema d.owners review
  { task := request.task
    taskKind := request.taskKind
    steps := d.steps
    expectations := (schema.map fun s => d.expectations settings s).getD []
    verdict := verdict
    risks := Risk.assess settings d.steps verdict request.task
    owners := d.owners }

def build (settings : Settings) (request : PlanRequest) (schema : Option Schema)
    (review : Option SchemaReview) : Plan :=
  let d := Draft.ofSchema? settings schema
  match d.obstacle? settings schema with
  | some obstacle =>
    asking request.task request.taskKind (Question.ask settings obstacle request.task)
  | none => ofDraft settings request schema review d

end Plan

end WorkbookPlan
