import WorkbookPlan.Json.Basic
import WorkbookPlan.Owners

/-! Steps: the single operations that a workbook is built with. -/
namespace WorkbookPlan

inductive Stage where
  | createStructure
  | writeData
  | setFormulas
  | addValidation
  | verify
  /-- Appended to clean up after a failure. -/
  | recovery
  deriving DecidableEq, Repr

inductive Status where
  | pending
  | running
  | completed
  | failed
  /-- Never run, since something it needs failed. -/
  | skipped
  deriving DecidableEq, Repr

/-- A step in such a state does not change any more. -/
def Status.isTerminal : Status → Bool
  | completed | failed | skipped => true
  | pending | running => false

structure Preview where
  /-- A local range, or the sheet name for a step that makes the sheet. -/
  affectedRange : String
  estimatedCells : Option Nat := none
  overwrites : Bool := false
  warning : Option String := none
  deriving DecidableEq, Repr

namespace Preview

def of (range : String) : Preview :=
  { affectedRange := range }

def withCells (p : Preview) (cells : Nat) : Preview :=
  { p with estimatedCells := some cells }

def overwriting (p : Preview) (warning : String) : Preview :=
  { p with overwrites := true, warning := some warning }

end Preview

/-- What has to hold after a step for it to count as done. -/
inductive Expectation where
  /-- The operation reported success. -/
  | toolSuccess
  /-- The cells hold this value; null means empty. -/
  | valueCheck (sheet range : String) (expected : Json)
  | rangeExists (sheet range : String)
  /-- A computed column yields this value. -/
  | formulaResult (sheet column : String) (expected : Json)
  | sheetExists (sheet : String)
  /-- The first row holds these texts in order. -/
  | headersMatch (sheet : String) (headers : List String)
  /-- No error value among so many sampled cells. -/
  | noErrorValues (sheet : String) (column : Option String) (sampleCount : Nat)
  | custom (description : String) (check : Json)
  deriving DecidableEq, Repr

namespace Action

def createSheet : String := "create_sheet"
def writeHeaders : String := "write_headers"
def setFormula : String := "set_formula"
def addValidation : String := "add_validation"
def verifyResults : String := "verify_results"
def clearRange : String := "clear_range"

end Action

structure Step where
  id : StepId
  /-- The place in the linear order of the plan. -/
  order : Nat
  stage : Stage
  /-- The operation that the executor is asked for. -/
  action : String
  description : String := ""
  /-- The arguments of the operation. -/
  parameters : Json := .null
  /-- Steps that must be done first. -/
  dependsOn : List StepId := []
  isWrite : Bool := false
  preview : Option Preview := none
  expectation : Expectation := .toolSuccess
  status : Status := .pending
  deriving DecidableEq, Repr

namespace Step

def writing (s : Step) (p : Preview) : Step :=
  { s with isWrite := true, preview := some p }

/-- A parameter that is text. -/
def param? (s : Step) (key : String) : Option String :=
  s.parameters.textAt? key

def sheet? (s : Step) : Option String :=
  s.param? "sheet"

def setParam (s : Step) (key : String) (value : Json) : Step :=
  { s with parameters := s.parameters.set key value }

def isPending (s : Step) : Bool :=
  s.status == .pending

end Step

end WorkbookPlan
