import WorkbookPlan.Formula.Call
import WorkbookPlan.Formula.Lookup
import WorkbookPlan.Repair.MissingSheet
import WorkbookPlan.Repair.Strategy
import WorkbookPlan.Sheet.Area
import WorkbookPlan.Step.Exchange

/-! The new steps of a repair. The failed step itself is left alone. -/
namespace WorkbookPlan

/-- A source of names for new steps: the number of the repair, and a token. -/
structure Mint where
  attempt : Nat
  token : String
  deriving DecidableEq, Repr

def Mint.id (m : Mint) (k : Nat) : StepId :=
  "r" ++ toString m.attempt ++ "_" ++ m.token ++ "_" ++ toString k

/-- New steps, and the one of them that stands in for the failed step. -/
structure Patch where
  steps : List Step := []
  replacement : Option StepId := none
  deriving DecidableEq, Repr

namespace Patch

/-- A fresh copy of a step. -/
def again (failed : Step) (id : StepId) (note : String) : Step :=
  { failed with
    id := id
    status := .pending
    description := note ++ ": " ++ failed.description }

def single (s : Step) : Patch :=
  ⟨[s], some s.id⟩

def retry (m : Mint) (failed : Step) : Patch :=
  single (again failed (m.id 1) "Retry")

/-- The step with its logical formula changed, if it has one and the change says how. -/
def mapFormula (change : String → Option String) (s : Step) : Step :=
  match (s.param? "logicalFormula").bind change with
  | none => s
  | some formula => s.setParam "logicalFormula" (.str formula)

def guardFormula (m : Mint) (failed : Step) : Patch :=
  single (mapFormula (fun f => some (Formula.guard f))
    (again failed (m.id 1) "Retry with error guard"))

def rewriteFormula (m : Mint) (failed : Step) : Patch :=
  single (mapFormula Formula.withoutLookups? (again failed (m.id 1) "Alternative approach"))

def createSheet (failed : Step) (id : StepId) (sheet : String) : Step where
  id := id
  order := failed.order
  stage := .createStructure
  action := Action.createSheet
  description := "Create missing sheet '" ++ sheet ++ "'"
  parameters := .object [("sheet", .str sheet)]
  isWrite := true
  preview := some (.of sheet)
  expectation := .sheetExists sheet

def waitFor (id : StepId) (s : Step) : Step :=
  if s.dependsOn.contains id then s else { s with dependsOn := s.dependsOn ++ [id] }

/-- Without the name of a missing sheet the step is just tried again. -/
def addPrerequisite (m : Mint) (failed : Step) (error : String) : Patch :=
  match MissingSheet.find? error with
  | none => retry m failed
  | some sheet =>
    let create := createSheet failed (m.id 1) sheet
    let again := waitFor create.id (again failed (m.id 2) "Retry after creating prerequisite")
    ⟨[create, again], some again.id⟩

def qualified (sheet : Option (List Char)) (range : String) : String :=
  match sheet with
  | none => range
  | some s => String.ofList s ++ "!" ++ range

/-- The part of a number, counted from zero, of a step that is cut into `total` parts. The first
part waits for what the step waits for, each other part for the part before it. -/
def part (m : Mint) (failed : Step) (sheet : Option (List Char)) (total : Nat)
    (piece : Sheet.Area × Nat) : Step :=
  let (area, i) := piece
  let note := "Part " ++ toString (i + 1) ++ "/" ++ toString total
  let s := (again failed (m.id (i + 1)) note).setParam "range" (.str (qualified sheet area.text))
  { s with
    dependsOn := if i = 0 then failed.dependsOn else [m.id i]
    preview := s.preview.map fun p =>
      { p with affectedRange := area.text, estimatedCells := area.cellCount? } }

/-- The bands of rows that a step's range is cut into, with the sheet that the range names. -/
def pieces (failed : Step) (parts : Nat) : Option (List Char) × List Sheet.Area :=
  match failed.param? "range" with
  | none => (none, [])
  | some range =>
    match Sheet.Area.parse range with
    | .error _ => (none, [])
    | .ok area => ((Sheet.splitSheet range.toList).1, area.splitRows parts)

/-- A step that cannot be cut is just tried again. -/
def split (m : Mint) (failed : Step) (parts : Nat) : Patch :=
  let (sheet, areas) := pieces failed parts
  if areas.length < 2 then retry m failed
  else
    let steps := areas.zipIdx.map (part m failed sheet areas.length)
    ⟨steps, steps.getLast?.map (·.id)⟩

/-- The range that a failed step may have written: its range, its column below the header, the range
of its preview, or else the sheet. -/
def writtenRange (failed : Step) : String :=
  ((failed.param? "range").map Sheet.localPart
    <|> (failed.param? "column").map (fun c => c ++ "2:" ++ c)
    <|> failed.preview.map (·.affectedRange)).getD (failed.sheet?.getD "")

def clearRange (failed : Step) (id : StepId) : Step :=
  let sheet := failed.sheet?.getD ""
  let range := writtenRange failed
  { id := id
    order := failed.order
    stage := .recovery
    action := Action.clearRange
    description :=
      "Clear '" ++ sheet ++ "'!" ++ range ++ " written by failed step " ++ failed.id
    parameters := .object
      [("sheet", .str sheet), ("range", .str range), ("rollbackOf", .str failed.id)]
    isWrite := true
    preview := some ((Preview.of range).overwriting
      ("Clears values written by step " ++ failed.id))
    expectation := .valueCheck sheet range .null }

/-- Nothing stands in for a step that is rolled back. -/
def rollBack (m : Mint) (failed : Step) : Patch :=
  ⟨[clearRange failed (m.id 1)], none⟩

def ofStrategy (m : Mint) (failed : Step) (error : String) (parts : Nat) : Strategy → Patch
  | .retry => retry m failed
  | .guardFormula => guardFormula m failed
  | .addPrerequisite => addPrerequisite m failed error
  | .split => split m failed parts
  | .rewriteFormula => rewriteFormula m failed
  | .rollBack => rollBack m failed
  | .abort => {}

end Patch

end WorkbookPlan
