import WorkbookPlan.Step.Basic
import WorkbookPlan.Schema.Exchange

/-! Exchange forms of steps. -/
namespace WorkbookPlan

namespace Stage

def name : Stage → String
  | createStructure => "create_structure"
  | writeData => "write_data"
  | setFormulas => "set_formulas"
  | addValidation => "add_validation"
  | verify => "verify"
  | recovery => "recovery"

def all : List Stage :=
  [createStructure, writeData, setFormulas, addValidation, verify, recovery]

instance : Wire Stage where
  encode s := .str s.name
  decode? := Json.oneOf? all name

end Stage

namespace Status

def name : Status → String
  | pending => "pending"
  | running => "running"
  | completed => "completed"
  | failed => "failed"
  | skipped => "skipped"

def all : List Status :=
  [pending, running, completed, failed, skipped]

instance : Wire Status where
  encode s := .str s.name
  decode? := Json.oneOf? all name

end Status

instance : Wire Preview where
  encode p := .object <|
    [("affectedRange", encode p.affectedRange), ("overwriteExisting", encode p.overwrites)]
      ++ fieldIfSome "estimatedCells" Json.nat p.estimatedCells
      ++ fieldIfSome "warning" encode p.warning
  decode? j := do
    let parts ← j.parts? ["affectedRange", "estimatedCells", "overwriteExisting", "warning"]
    let affectedRange ← required parts decode? "affectedRange"
    let estimatedCells ← nullable parts Json.nat64? "estimatedCells"
    let overwrites ← withDefault parts false decode? "overwriteExisting"
    let warning ← nullable parts decode? "warning"
    some { affectedRange, estimatedCells, overwrites, warning }

namespace Expectation

def kind : Expectation → String
  | toolSuccess => "tool_success"
  | valueCheck .. => "value_check"
  | rangeExists .. => "range_exists"
  | formulaResult .. => "formula_result"
  | sheetExists _ => "sheet_exists"
  | headersMatch .. => "headers_match"
  | noErrorValues .. => "no_error_values"
  | custom .. => "custom"

def fields : Expectation → List (String × Json)
  | toolSuccess => []
  | valueCheck sheet range expected =>
    [("sheet", encode sheet), ("range", encode range), ("expected", expected)]
  | rangeExists sheet range => [("sheet", encode sheet), ("range", encode range)]
  | formulaResult sheet column expected =>
    [("sheet", encode sheet), ("column", encode column), ("expected", expected)]
  | sheetExists sheet => [("sheet", encode sheet)]
  | headersMatch sheet headers => [("sheet", encode sheet), ("headers", encode headers)]
  | noErrorValues sheet column sampleCount =>
    [("sheet", encode sheet), ("sampleCount", Json.nat sampleCount)]
      ++ fieldIfSome "column" encode column
  | custom description check => [("description", encode description), ("check", check)]

/-- Read the fields of a kind. In list form they stand behind the tag. -/
def ofKind? (kind : String) (j : Json) : Option Expectation :=
  match kind with
  | "tool_success" => do
    let _ ← j.parts? []
    some .toolSuccess
  | "value_check" => do
    let parts ← j.parts? ["sheet", "range", "expected"]
    let sheet ← required parts decode? "sheet"
    let range ← required parts decode? "range"
    let expected ← parts "expected"
    some (.valueCheck sheet range expected)
  | "range_exists" => do
    let parts ← j.parts? ["sheet", "range"]
    let sheet ← required parts decode? "sheet"
    let range ← required parts decode? "range"
    some (.rangeExists sheet range)
  | "formula_result" => do
    let parts ← j.parts? ["sheet", "column", "expected"]
    let sheet ← required parts decode? "sheet"
    let column ← required parts decode? "column"
    let expected ← parts "expected"
    some (.formulaResult sheet column expected)
  | "sheet_exists" => do
    let parts ← j.parts? ["sheet"]
    let sheet ← required parts decode? "sheet"
    some (.sheetExists sheet)
  | "headers_match" => do
    let parts ← j.parts? ["sheet", "headers"]
    let sheet ← required parts decode? "sheet"
    let headers ← required parts decode? "headers"
    some (.headersMatch sheet headers)
  | "no_error_values" => do
    let parts ← j.parts? ["sheet", "column", "sampleCount"]
    let sheet ← required parts decode? "sheet"
    let column ← nullable parts decode? "column"
    let sampleCount ← required parts Json.nat32? "sampleCount"
    some (.noErrorValues sheet column sampleCount)
  | "custom" => do
    let parts ← j.parts? ["description", "check"]
    let description ← required parts decode? "description"
    let check ← parts "check"
    some (.custom description check)
  | _ => none

instance : Wire Expectation where
  encode e := .object (("type", .str e.kind) :: e.fields)
  decode?
    | .obj fields =>
      match fields.lookup "type" with
      | some (.str kind) => ofKind? kind (.obj fields)
      | _ => none
    | .arr (.str kind :: items) => ofKind? kind (.arr items)
    | _ => none

end Expectation

instance : Wire Step where
  encode s := .object <|
    [("id", encode s.id), ("order", Json.nat s.order), ("phase", encode s.stage),
      ("action", encode s.action), ("description", encode s.description),
      ("parameters", s.parameters), ("dependsOn", encode s.dependsOn),
      ("isWriteOperation", encode s.isWrite), ("successCondition", encode s.expectation),
      ("status", encode s.status)]
      ++ fieldIfSome "writePreview" encode s.preview
  decode? j := do
    let parts ← j.parts?
      ["id", "order", "phase", "action", "description", "parameters", "dependsOn",
        "isWriteOperation", "writePreview", "successCondition", "status"]
    let id ← required parts decode? "id"
    let order ← required parts Json.nat32? "order"
    let stage ← required parts decode? "phase"
    let action ← required parts decode? "action"
    let description ← withDefault parts "" decode? "description"
    let parameters ← withDefault parts .null some "parameters"
    let dependsOn ← withDefault parts [] decode? "dependsOn"
    let isWrite ← withDefault parts false decode? "isWriteOperation"
    let preview ← nullable parts decode? "writePreview"
    let expectation ← required parts decode? "successCondition"
    let status ← withDefault parts .pending decode? "status"
    some ⟨id, order, stage, action, description, parameters, dependsOn, isWrite, preview,
      expectation, status⟩

end WorkbookPlan
