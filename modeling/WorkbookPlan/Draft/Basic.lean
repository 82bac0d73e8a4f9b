import WorkbookPlan.Formula.FieldReference
import WorkbookPlan.Owners
import WorkbookPlan.Settings.Basic
import WorkbookPlan.Sheet.Area
import WorkbookPlan.Step.Exchange

/-! Drafts: the steps that build a schema's workbook. Sheets and headers come first, table by table,
then the formulas in the order of the calculation chain, then the validation rules, and last one
step that looks for error values. Each step only depends on steps before it. -/
namespace WorkbookPlan

/-- Steps in the order in which they are added, the owner of each field, and the tables in the order
of their creation. -/
structure Draft where
  steps : List Step := []
  owners : Owners := .empty
  tables : List String := []
  deriving DecidableEq, Repr

namespace Schema

def orderedTables (s : Schema) : List Table :=
  (s.executionOrder.filterMap s.table? ++ s.tables).foldl
    (fun acc t => if acc.any (·.name == t.name) then acc else acc ++ [t]) []

def columnOf? (s : Schema) (sheet field : String) : Option String :=
  (s.table? sheet).bind fun t => (t.fieldIndex? field).map Sheet.Column.name

end Schema

namespace Draft

/-- Text as a part of a step name: a character that is not alphanumeric becomes an underscore. -/
def idPart (text : String) : String :=
  String.ofList (text.toList.map fun c => if Text.isAlphanumeric c then c else '_')

/-- A step is named by its place, its action, its sheet, and its field if it has one. -/
def stepId (order : Nat) (action sheet : String) (field : Option String) : StepId :=
  "s" ++ toString order ++ "_" ++ action ++ "_" ++ idPart sheet
    ++ match field with
      | none => ""
      | some f => "_" ++ idPart f

def isEmpty (d : Draft) : Bool :=
  d.steps.isEmpty

def nextOrder (d : Draft) : Nat :=
  d.steps.length + 1

def formulaSteps (d : Draft) : List Step :=
  d.steps.filter (·.action == Action.setFormula)

def columnBody (column : String) : String :=
  column ++ "2:" ++ column

def createSheet (order : Nat) (t : Table) (dependsOn : List StepId) : Step where
  id := stepId order Action.createSheet t.name none
  order := order
  stage := .createStructure
  action := Action.createSheet
  description := "Create sheet '" ++ t.name ++ "'"
  parameters := .object [("sheet", .str t.name)]
  dependsOn := dependsOn
  isWrite := true
  preview := some (.of t.name)
  expectation := .sheetExists t.name

def writeHeaders (order : Nat) (t : Table) (dependsOn : List StepId) : Step where
  id := stepId order Action.writeHeaders t.name none
  order := order
  stage := .createStructure
  action := Action.writeHeaders
  description :=
    "Write " ++ toString t.fields.length ++ " header(s) to '" ++ t.name ++ "'"
  parameters := .object
    [("sheet", .str t.name),
      ("range", .str (Sheet.Area.rowSpan 1 t.fields.length).text),
      ("headers", .strings t.fieldNames)]
  dependsOn := dependsOn
  isWrite := true
  preview := some ((Preview.of (Sheet.Area.rowSpan 1 t.fields.length).text).withCells
    t.fields.length)
  expectation := .headersMatch t.name t.fieldNames

/-- Set the formula of a computed field, with the field names of its table wrapped. -/
def setFormula (settings : Settings) (schema : Schema) (order : Nat) (c : Computation)
    (dependsOn : List StepId) : Step :=
  let names := ((schema.table? c.sheet).map (·.fieldNames)).getD []
  let column := schema.columnOf? c.sheet c.field
  { id := stepId order Action.setFormula c.sheet (some c.field)
    order := order
    stage := .setFormulas
    action := Action.setFormula
    description := "Set formula for '" ++ c.sheet ++ "'.'" ++ c.field ++ "'"
    parameters := .object
      [("sheet", .str c.sheet), ("field", .str c.field),
        ("column", (column.map .str).getD .null),
        ("logicalFormula", .str (Formula.wrapNames names c.formula)),
        ("originalFormula", .str c.formula), ("referenceMode", .str "structured")]
    dependsOn := dependsOn
    isWrite := true
    preview := some (.of ((column.map columnBody).getD c.sheet))
    expectation := .noErrorValues c.sheet column settings.formulaSampleCount }

def addValidation (order : Nat) (t : Table) (f : Field) (rule : FieldRule) (column : String)
    (dependsOn : List StepId) : Step where
  id := stepId order Action.addValidation t.name (some f.name)
  order := order
  stage := .addValidation
  action := Action.addValidation
  description := "Add validation to '" ++ t.name ++ "'.'" ++ f.name ++ "'"
  parameters := .object
    [("sheet", .str t.name), ("field", .str f.name), ("column", .str column),
      ("rule", encode { rule with formula := rule.formula.map (Formula.wrapNames t.fieldNames) })]
  dependsOn := dependsOn
  isWrite := true
  preview := some (.of (columnBody column))
  expectation := .toolSuccess

def columnCheck (s : Step) : Json :=
  .object
    [("sheet", (s.sheet?.map .str).getD .null),
      ("column", ((s.param? "column").map .str).getD .null)]

/-- Look for error values in the computed columns. -/
def verifyResults (settings : Settings) (order : Nat) (formulas : List Step) : Step :=
  let checks := formulas.map columnCheck
  let sheet := ((formulas.head?).bind (·.sheet?)).getD "workbook"
  { id := stepId order Action.verifyResults sheet none
    order := order
    stage := .verify
    action := Action.verifyResults
    description :=
      "Verify " ++ toString checks.length ++ " computed column(s) contain no error values"
    parameters := .object
      [("checks", .arr checks), ("sampleCount", .nat settings.formulaSampleCount)]
    dependsOn := formulas.map (·.id)
    expectation := .custom "No error values in any computed column" (.arr checks) }

/-- The draft with the sheet and the headers of a table. The header step owns every field at
first. -/
def withTable (d : Draft) (t : Table) : Draft :=
  let create := createSheet d.nextOrder t (d.owners.ofTables t.dependsOn)
  let headers := writeHeaders (d.nextOrder + 1) t [create.id]
  { d with
    steps := d.steps ++ [create, headers]
    owners := t.fields.foldl (fun o f => o.register t.name f.name headers.id) d.owners }

/-- The steps that a computation waits for: the owners of the fields it names, and the owner of its
own field so far. -/
def computationDeps (o : Owners) (c : Computation) : List StepId :=
  let deps := o.ofTokens c.dependencies
  match o.owner? c.sheet c.field with
  | none => deps
  | some id => if deps.contains id then deps else deps ++ [id]

/-- The draft with the formula step of a computation, which owns its field from then on. -/
def withComputation (settings : Settings) (schema : Schema) (d : Draft) (c : Computation) : Draft :=
  let s := setFormula settings schema d.nextOrder c (computationDeps d.owners c)
  { d with
    steps := d.steps ++ [s]
    owners := d.owners.register c.sheet c.field s.id }

def withRule (t : Table) (d : Draft) (f : Field × Nat) : Draft :=
  match f.1.rule with
  | none => d
  | some rule =>
    let deps := (d.owners.owner? t.name f.1.name).toList
    let s := addValidation d.nextOrder t f.1 rule (Sheet.Column.name f.2) deps
    { d with steps := d.steps ++ [s] }

def withRules (d : Draft) (t : Table) : Draft :=
  t.fields.zipIdx.foldl (withRule t) d

def withVerification (settings : Settings) (d : Draft) : Draft :=
  if d.formulaSteps.isEmpty then d
  else { d with steps := d.steps ++ [verifyResults settings d.nextOrder d.formulaSteps] }

def ofSchema (settings : Settings) (schema : Schema) : Draft :=
  let tables := schema.orderedTables
  let d : Draft := { tables := tables.map (·.name) }
  let d := tables.foldl withTable d
  let d := schema.calculationChain.foldl (withComputation settings schema) d
  let d := tables.foldl withRules d
  d.withVerification settings

def ofSchema? (settings : Settings) : Option Schema → Draft
  | none => {}
  | some schema => ofSchema settings schema

end Draft

end WorkbookPlan
