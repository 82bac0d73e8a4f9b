import WorkbookPlan.Repair.Failure
import WorkbookPlan.Step.Exchange

/-! What went wrong with a step, in words. -/
namespace WorkbookPlan

structure Diagnosis where
  failure : Failure
  cause : String
  suggestions : List String
  /-- There are repairs left. -/
  isRecoverable : Bool
  deriving DecidableEq, Repr

instance : Wire Diagnosis where
  encode d := .object
    [("failureType", encode d.failure), ("rootCause", encode d.cause),
      ("suggestions", encode d.suggestions), ("isRecoverable", encode d.isRecoverable)]
  decode? j := do
    let parts ← j.parts? ["failureType", "rootCause", "suggestions", "isRecoverable"]
    let failure ← required parts decode? "failureType"
    let cause ← required parts decode? "rootCause"
    let suggestions ← required parts decode? "suggestions"
    let isRecoverable ← required parts decode? "isRecoverable"
    some { failure, cause, suggestions, isRecoverable }

namespace Diagnosis

/-- What a step works on: its sheet, with the field if it has one, else the step itself. -/
def target (s : Step) : String :=
  match s.sheet?, s.param? "field" with
  | some sheet, some field => "'" ++ sheet ++ "'.'" ++ field ++ "'"
  | some sheet, none => "'" ++ sheet ++ "'"
  | none, _ => "step " ++ s.id

def causeText (target error : String) : Failure → String
  | .badReference =>
    "Formula for " ++ target ++ " references a cell or range that is not valid (#REF!)"
  | .badValue => "Formula for " ++ target ++ " produced a value error"
  | .unknownName =>
    "Formula for " ++ target ++ " uses a function or name the host does not recognise (#NAME?)"
  | .missing => target ++ " needs a sheet or field that does not exist yet"
  | .timeout => "Operation on " ++ target ++ " timed out"
  | .execution => "Executing " ++ target ++ " failed: " ++ Text.trimmed error
  | .unexplained => "Executing " ++ target ++ " failed without an error message"

def advice : Failure → List String
  | .badReference =>
    ["Check that every referenced column still exists",
      "Guard the formula against invalid references", "Rewrite the lookup with INDEX/MATCH"]
  | .badValue =>
    ["Check the data types of the referenced columns", "Guard the formula with IFERROR"]
  | .unknownName =>
    ["Replace unsupported functions with equivalents", "Check field names for typos"]
  | .missing => ["Create the missing sheet first", "Check the execution order of the data model"]
  | .timeout => ["Split the operation into smaller ranges"]
  | .execution => ["Retry the step", "Roll back the partial write and review the step"]
  | .unexplained => ["Retry the step", "Inspect the sheet state manually"]

/-- The diagnosis of a failed step after `count` repairs of at most `limit`. -/
def ofStep (s : Step) (error : String) (count limit : Nat) : Diagnosis :=
  let failure := Failure.ofText error
  { failure := failure
    cause := causeText (target s) error failure
    suggestions := advice failure
    isRecoverable := count < limit }

end Diagnosis

end WorkbookPlan
