import WorkbookPlan.Schema.Basic
import WorkbookPlan.Json.Decode

/-! Exchange forms of schemas. -/
namespace WorkbookPlan

namespace Json

/-- The choice among these that has the written name. -/
def oneOf? {α : Type _} (all : List α) (name : α → String) (j : Json) : Option α :=
  j.choice?.bind fun s => all.find? (name · == s)

end Json

namespace RuleKind

def name : RuleKind → String
  | list => "list"
  | wholeNumber => "whole_number"
  | decimal => "decimal"
  | date => "date"
  | textLength => "text_length"
  | custom => "custom"

def all : List RuleKind :=
  [list, wholeNumber, decimal, date, textLength, custom]

instance : Wire RuleKind where
  encode k := .str k.name
  decode? := Json.oneOf? all name

end RuleKind

instance : Wire FieldRule where
  encode r := .object <|
    [("kind", encode r.kind), ("allowBlank", encode r.allowBlank)]
      ++ (if r.values.isEmpty then [] else [("values", encode r.values)])
      ++ fieldIfSome "min" encode r.min
      ++ fieldIfSome "max" encode r.max
      ++ fieldIfSome "formula" encode r.formula
      ++ fieldIfSome "message" encode r.message
  decode? j := do
    let parts ← j.parts? ["kind", "values", "min", "max", "formula", "allowBlank", "message"]
    let kind ← required parts decode? "kind"
    let values ← withDefault parts [] decode? "values"
    let min ← nullable parts decode? "min"
    let max ← nullable parts decode? "max"
    let formula ← nullable parts decode? "formula"
    let allowBlank ← withDefault parts true decode? "allowBlank"
    let message ← nullable parts decode? "message"
    some { kind, values, min, max, formula, allowBlank, message }

instance : Wire Field where
  encode f := .object <|
    [("name", encode f.name)]
      ++ fieldIfSome "formula" encode f.formula
      ++ fieldIfSome "validation" encode f.rule
      ++ fieldIfSome "description" encode f.description
  decode? j := do
    let parts ← j.parts? ["name", "formula", "validation", "description"]
    let name ← required parts decode? "name"
    let formula ← nullable parts decode? "formula"
    let rule ← nullable parts decode? "validation"
    let description ← nullable parts decode? "description"
    some { name, formula, rule, description }

instance : Wire Table where
  encode t := .object
    [("name", encode t.name), ("fields", encode t.fields), ("dependsOn", encode t.dependsOn)]
  decode? j := do
    let parts ← j.parts? ["name", "fields", "dependsOn"]
    let name ← required parts decode? "name"
    let fields ← withDefault parts [] decode? "fields"
    let dependsOn ← withDefault parts [] decode? "dependsOn"
    some { name, fields, dependsOn }

instance : Wire Computation where
  encode c := .object
    [("sheet", encode c.sheet), ("field", encode c.field), ("formula", encode c.formula),
      ("dependencies", encode c.dependencies)]
  decode? j := do
    let parts ← j.parts? ["sheet", "field", "formula", "dependencies"]
    let sheet ← required parts decode? "sheet"
    let field ← required parts decode? "field"
    let formula ← required parts decode? "formula"
    let dependencies ← withDefault parts [] decode? "dependencies"
    some { sheet, field, formula, dependencies }

instance : Wire Schema where
  encode s := .object
    [("tables", encode s.tables), ("executionOrder", encode s.executionOrder),
      ("calculationChain", encode s.calculationChain)]
  decode? j := do
    let parts ← j.parts? ["tables", "executionOrder", "calculationChain"]
    let tables ← withDefault parts [] decode? "tables"
    let executionOrder ← withDefault parts [] decode? "executionOrder"
    let calculationChain ← withDefault parts [] decode? "calculationChain"
    some { tables, executionOrder, calculationChain }

instance : Wire SchemaReview where
  encode r := .object
    [("isValid", encode r.isValid), ("errors", encode r.errors), ("warnings", encode r.warnings),
      ("circularDependencies", encode r.cycles)]
  decode? j := do
    let parts ← j.parts? ["isValid", "errors", "warnings", "circularDependencies"]
    let isValid ← withDefault parts true decode? "isValid"
    let errors ← withDefault parts [] decode? "errors"
    let warnings ← withDefault parts [] decode? "warnings"
    let cycles ← withDefault parts [] decode? "circularDependencies"
    some { isValid, errors, warnings, cycles }

end WorkbookPlan
