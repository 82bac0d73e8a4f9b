import WorkbookPlan.Owners

/-! Findings about a plan: dependencies that do not hold, and risks. -/
namespace WorkbookPlan

structure Dangling where
  stepId : StepId
  missingId : StepId
  deriving DecidableEq, Repr

inductive ReferenceKind where
  /-- A formula names another field. -/
  | formula
  /-- A lookup reads from another table. -/
  | lookup
  /-- A table is fed from another table. -/
  | dataSource
  deriving DecidableEq, Repr

/-- What a field or a table needs. Without a target field the whole table is needed. -/
structure Reference where
  sourceSheet : String
  sourceField : String
  targetSheet : String
  targetField : String
  kind : ReferenceKind
  isResolved : Bool
  stepId : Option StepId := none
  deriving DecidableEq, Repr

def Reference.token (r : Reference) : String :=
  if r.targetField.isEmpty then r.targetSheet else r.targetSheet ++ "!" ++ r.targetField

structure Verdict where
  passed : Bool := false
  missing : List Dangling := []
  cycles : List (List String) := []
  /-- Every reference that was looked at. -/
  references : List Reference := []
  unresolved : List Reference := []
  errors : List String := []
  warnings : List String := []
  deriving DecidableEq, Repr

/-- Passed if nothing is missing, cyclic or unresolved. -/
def Verdict.settle (v : Verdict) : Verdict :=
  { v with passed := v.missing.isEmpty && v.cycles.isEmpty && v.unresolved.isEmpty }

inductive RiskLevel where
  | low
  | medium
  | high
  deriving DecidableEq, Repr

namespace RiskLevel

def rank : RiskLevel → Nat
  | low => 0
  | medium => 1
  | high => 2

def max (a b : RiskLevel) : RiskLevel :=
  if a.rank ≤ b.rank then b else a

end RiskLevel

structure Risk where
  level : RiskLevel
  description : String
  mitigation : String
  deriving DecidableEq, Repr

def Risk.highest? (risks : List Risk) : Option RiskLevel :=
  risks.foldl (fun acc r => some ((acc.map (·.max r.level)).getD r.level)) none

end WorkbookPlan
