import WorkbookPlan.Schema.Exchange
import WorkbookPlan.Verdict.Basic

/-! Exchange forms of findings. -/
namespace WorkbookPlan

instance : Wire Dangling where
  encode d := .object [("stepId", encode d.stepId), ("missingId", encode d.missingId)]
  decode? j := do
    let parts ← j.parts? ["stepId", "missingId"]
    let stepId ← required parts decode? "stepId"
    let missingId ← required parts decode? "missingId"
    some { stepId, missingId }

namespace ReferenceKind

def name : ReferenceKind → String
  | formula => "formula_reference"
  | lookup => "lookup_source"
  | dataSource => "data_source"

def all : List ReferenceKind :=
  [formula, lookup, dataSource]

instance : Wire ReferenceKind where
  encode k := .str k.name
  decode? := Json.oneOf? all name

end ReferenceKind

instance : Wire Reference where
  encode r := .object <|
    [("sourceSheet", encode r.sourceSheet), ("sourceField", encode r.sourceField),
      ("targetSheet", encode r.targetSheet), ("targetField", encode r.targetField),
      ("dependencyType", encode r.kind), ("isResolved", encode r.isResolved)]
      ++ fieldIfSome "resolvedStepId" encode r.stepId
  decode? j := do
    let parts ← j.parts?
      ["sourceSheet", "sourceField", "targetSheet", "targetField", "dependencyType", "isResolved",
        "resolvedStepId"]
    let sourceSheet ← required parts decode? "sourceSheet"
    let sourceField ← required parts decode? "sourceField"
    let targetSheet ← required parts decode? "targetSheet"
    let targetField ← required parts decode? "targetField"
    let kind ← required parts decode? "dependencyType"
    let isResolved ← required parts decode? "isResolved"
    let stepId ← nullable parts decode? "resolvedStepId"
    some ⟨sourceSheet, sourceField, targetSheet, targetField, kind, isResolved, stepId⟩

instance : Wire Verdict where
  encode v := .object
    [("passed", encode v.passed), ("missingDependencies", encode v.missing),
      ("circularDependencies", encode v.cycles), ("semanticDependencies", encode v.references),
      ("unresolvedSemanticDeps", encode v.unresolved), ("errors", encode v.errors),
      ("warnings", encode v.warnings)]
  decode? j := do
    let parts ← j.parts?
      ["passed", "missingDependencies", "circularDependencies", "semanticDependencies",
        "unresolvedSemanticDeps", "errors", "warnings"]
    let passed ← required parts decode? "passed"
    let missing ← withDefault parts [] decode? "missingDependencies"
    let cycles ← withDefault parts [] decode? "circularDependencies"
    let references ← withDefault parts [] decode? "semanticDependencies"
    let unresolved ← withDefault parts [] decode? "unresolvedSemanticDeps"
    let errors ← withDefault parts [] decode? "errors"
    let warnings ← withDefault parts [] decode? "warnings"
    some ⟨passed, missing, cycles, references, unresolved, errors, warnings⟩

namespace RiskLevel

def name : RiskLevel → String
  | low => "low"
  | medium => "medium"
  | high => "high"

def all : List RiskLevel :=
  [low, medium, high]

instance : Wire RiskLevel where
  encode l := .str l.name
  decode? := Json.oneOf? all name

end RiskLevel

instance : Wire Risk where
  encode r := .object
    [("level", encode r.level), ("description", encode r.description),
      ("mitigation", encode r.mitigation)]
  decode? j := do
    let parts ← j.parts? ["level", "description", "mitigation"]
    let level ← required parts decode? "level"
    let description ← required parts decode? "description"
    let mitigation ← required parts decode? "mitigation"
    some { level, description, mitigation }

end WorkbookPlan
