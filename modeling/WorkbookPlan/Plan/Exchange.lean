import WorkbookPlan.Plan.Basic
import WorkbookPlan.Step.Exchange
import WorkbookPlan.Verdict.Exchange

/-! Exchange forms of plans. -/
namespace WorkbookPlan

namespace Phase

def name : Phase → String
  | awaitingClarification => "awaiting_clarification"
  | ready => "ready"
  | executing => "executing"
  | repairing => "replanning"
  | completed => "completed"
  | failed => "failed"

def all : List Phase :=
  [awaitingClarification, ready, executing, repairing, completed, failed]

instance : Wire Phase where
  encode p := .str p.name
  decode? := Json.oneOf? all name

end Phase

namespace DependencyState

def name : DependencyState → String
  | satisfied => "satisfied"
  | waiting => "waiting"
  | dead => "dead"

end DependencyState

namespace Owners

def objectJson (o : Owners) : Json :=
  .object (o.tables.map fun (table, fields) =>
    (table, .object (fields.map fun (field, id) => (field, .str id))))

def listJson (o : Owners) : Json :=
  .arr (o.entries.map fun (table, field, id) => .strings [table, field, id])

def readFields? : Json → Option (List (String × StepId))
  | .obj fields => fields.mapM fun (field, id) => id.str?.map fun id => (field, id)
  | _ => none

instance : Wire Owners where
  encode := objectJson
  decode?
    | .obj tables => do
      let tables ← tables.mapM fun (table, fields) => (readFields? fields).map fun fs => (table, fs)
      some (.ofLists tables)
    | _ => none

end Owners

instance : Wire (KeyedMap StepId) where
  encode m := .obj (m.entries.map fun (k, v) => (k, .str v))
  decode?
    | .obj fields => do
      let links ← fields.mapM fun (k, v) => v.str?.map fun v => (k, v)
      some (.ofList links)
    | _ => none

namespace Plan

/-- The fields of a plan, its owners apart. -/
def fields (p : Plan) : List (String × Json) :=
  [("taskDescription", encode p.task), ("taskType", encode p.taskKind),
    ("steps", encode p.steps), ("taskSuccessConditions", encode p.expectations),
    ("dependencyCheck", encode p.verdict), ("risks", encode p.risks),
    ("currentStep", Json.nat p.current), ("completedSteps", encode p.completed),
    ("failedSteps", encode p.failed), ("phase", encode p.phase),
    ("replanCount", Json.nat p.repairCount), ("supersessions", encode p.supersessions),
    ("needsClarification", encode p.needsClarification)]
    ++ fieldIfSome "clarificationMessage" encode p.question

/-- A plan has no list form. -/
def ofObject? (object : List (String × Json)) : Option Plan := do
  let parts (k : String) := object.lookup k
  let task ← required parts decode? "taskDescription"
  let taskKind ← required parts decode? "taskType"
  let steps ← withDefault parts [] decode? "steps"
  let expectations ← withDefault parts [] decode? "taskSuccessConditions"
  let verdict ← withDefault parts {} decode? "dependencyCheck"
  let risks ← withDefault parts [] decode? "risks"
  let owners ← withDefault parts .empty decode? "fieldStepIds"
  let current ← withDefault parts 0 Json.nat64? "currentStep"
  let completed ← withDefault parts [] decode? "completedSteps"
  let failed ← withDefault parts [] decode? "failedSteps"
  let phase ← withDefault parts .ready decode? "phase"
  let repairCount ← withDefault parts 0 Json.nat32? "replanCount"
  let supersessions ← withDefault parts .empty decode? "supersessions"
  let needsClarification ← withDefault parts false decode? "needsClarification"
  let question ← nullable parts decode? "clarificationMessage"
  some ⟨task, taskKind, steps, expectations, verdict, risks, owners, current, completed, failed,
    phase, repairCount, supersessions, needsClarification, question⟩

instance : Wire Plan where
  encode p := .object (("fieldStepIds", encode p.owners) :: p.fields)
  decode?
    | .obj object => ofObject? object
    | _ => none

/-- The form in which the owners stand in the order of their registration. -/
def listing (p : Plan) : Json :=
  .object (("fieldStepIds", p.owners.listJson) :: p.fields)

end Plan

end WorkbookPlan
