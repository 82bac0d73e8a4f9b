import WorkbookPlan.Repair.Failure

/-! Ways to repair a failed step, and which way is taken when. -/
namespace WorkbookPlan

inductive Strategy where
  /-- The same step again. -/
  | retry
  /-- The step with its formula guarded. -/
  | guardFormula
  /-- The missing sheet first, then the step. -/
  | addPrerequisite
  /-- The step in parts. -/
  | split
  /-- The step with other functions in its formula. -/
  | rewriteFormula
  /-- What the step wrote is cleared. -/
  | rollBack
  /-- No more repairs. -/
  | abort
  deriving DecidableEq, Repr

namespace Strategy

def name : Strategy → String
  | retry => "simple_retry"
  | guardFormula => "retry_with_fix"
  | addPrerequisite => "add_prerequisite"
  | split => "split_step"
  | rewriteFormula => "alternative_approach"
  | rollBack => "partial_rollback"
  | abort => "abort"

def all : List Strategy :=
  [retry, guardFormula, addPrerequisite, split, rewriteFormula, rollBack, abort]

instance : Wire Strategy where
  encode s := .str s.name
  decode? := Json.oneOf? all name

def canContinue (s : Strategy) : Bool :=
  s != abort

/-- The strategies that change what was asked for. -/
def needsConfirmation : Strategy → Bool
  | rewriteFormula | rollBack => true
  | _ => false

def below (isFirst : Bool) : Failure → Strategy
  | .missing => addPrerequisite
  | .badReference => if isFirst then guardFormula else rewriteFormula
  | .badValue => guardFormula
  | .unknownName => rewriteFormula
  | .timeout => split
  | .execution | .unexplained => if isFirst then retry else rollBack

/-- The strategy for a failure after `count` repairs of at most `limit`. -/
def choose (failure : Failure) (count limit : Nat) : Strategy :=
  if limit ≤ count then abort else below (count == 0) failure

end Strategy

end WorkbookPlan
