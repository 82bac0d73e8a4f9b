import WorkbookPlan.Step.Exchange

/-! What an executor reports of a step, and what a run takes down of it. -/
namespace WorkbookPlan

/-- The report of an executor. -/
structure Outcome where
  success : Bool
  output : Option Json := none
  error : Option String := none
  deriving DecidableEq, Repr

namespace Outcome

def ok (output : Json) : Outcome :=
  { success := true, output := some output }

def failure (error : String) : Outcome :=
  { success := false, error := some error }

instance : Wire Outcome where
  encode o := .object <|
    [("success", encode o.success)]
      ++ fieldIfSome "output" id o.output
      ++ fieldIfSome "error" encode o.error
  decode? j := do
    let parts ← j.parts? ["success", "output", "error"]
    let success ← required parts decode? "success"
    let output ← nullable parts some "output"
    let error ← nullable parts decode? "error"
    some { success, output, error }

end Outcome

structure Record where
  stepId : StepId
  action : String
  status : Status
  output : Option Json := none
  error : Option String := none
  deriving DecidableEq, Repr

namespace Record

def ofOutcome (s : Step) (status : Status) (o : Outcome) : Record :=
  ⟨s.id, s.action, status, o.output, o.error⟩

def skipped (s : Step) : Record :=
  ⟨s.id, s.action, .skipped, none, none⟩

instance : Wire Record where
  encode r := .object <|
    [("stepId", encode r.stepId), ("action", encode r.action), ("status", encode r.status)]
      ++ fieldIfSome "output" id r.output
      ++ fieldIfSome "error" encode r.error
  decode? j := do
    let parts ← j.parts? ["stepId", "action", "status", "output", "error"]
    let stepId ← required parts decode? "stepId"
    let action ← required parts decode? "action"
    let status ← required parts decode? "status"
    let output ← nullable parts some "output"
    let error ← nullable parts decode? "error"
    some ⟨stepId, action, status, output, error⟩

end Record

end WorkbookPlan
