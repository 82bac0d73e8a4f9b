import WorkbookPlan.Formula.Lookup
import WorkbookPlan.Formula.SheetMention
import WorkbookPlan.Owners
import WorkbookPlan.Schema.Basic
import WorkbookPlan.Verdict.Structure

/-! The dependency check: the edges between steps, the tokens of the calculation chain, the tables
that lookups read from, and the tables that others are fed from. -/
namespace WorkbookPlan

namespace Check

/-- A field is there if a step owns it, or if it is a field of the schema that is not computed. -/
def fieldReference (schema : Schema) (owners : Owners) (source : String × String)
    (sheet field : String) (kind : ReferenceKind) : Reference :=
  let owner := owners.owner? sheet field
  { sourceSheet := source.1
    sourceField := source.2
    targetSheet := sheet
    targetField := field
    kind := kind
    isResolved := owner.isSome || (schema.field? sheet field).any (!·.isComputed)
    stepId := owner }

/-- A table is there if the schema has it. -/
def tableReference (schema : Schema) (owners : Owners) (source : String × String) (sheet : String)
    (kind : ReferenceKind) : Reference where
  sourceSheet := source.1
  sourceField := source.2
  targetSheet := sheet
  targetField := ""
  kind := kind
  isResolved := (schema.table? sheet).isSome
  stepId := owners.anyOf? sheet

def explain (schema : Schema) (r : Reference) : String :=
  let source :=
    if r.sourceField.isEmpty then r.sourceSheet else r.sourceSheet ++ "!" ++ r.sourceField
  match schema.table? r.targetSheet with
  | none => source ++ " depends on sheet '" ++ r.targetSheet ++ "', which does not exist"
  | some table =>
    match table.field? r.targetField with
    | none =>
      source ++ " depends on field '" ++ r.targetField ++ "' in sheet '" ++ r.targetSheet
        ++ "', which does not exist"
    | some _ =>
      source ++ " depends on computed field " ++ r.token ++ " which has no producing step"

inductive Finding where
  | reference (r : Reference)
  | malformed (warning : String)
  deriving DecidableEq, Repr

/-- The finding of one token of a computation. -/
def tokenFinding (schema : Schema) (owners : Owners) (c : Computation) (token : String) : Finding :=
  match splitToken? token with
  | none =>
    .malformed ("Malformed dependency '" ++ token ++ "' in " ++ c.sheet ++ "!" ++ c.field
      ++ " ignored")
  | some (sheet, field) =>
    .reference (fieldReference schema owners (c.sheet, c.field) sheet field .formula)

def chainFindings (schema : Schema) (owners : Owners) : List Finding :=
  schema.calculationChain.flatMap fun c => c.dependencies.map (tokenFinding schema owners c)

/-- What a lookup formula of a table reads from: each other table that it names, by the fields of it
that it names, and each sheet in front of an exclamation mark that the schema does not have. -/
def lookupReferences (schema : Schema) (owners : Owners) (own : Table) (field formula : String) :
    List Reference :=
  let text := Formula.blankLiterals formula.toList
  let source := (own.name, field)
  let named := schema.tables.filter fun t =>
    t.name != own.name && Text.contains t.name.toList text
  let tables := named.flatMap fun t =>
    match t.fieldNames.filter fun n => Text.contains n.toList text with
    | [] => [tableReference schema owners source t.name .lookup]
    | names => names.map fun n => fieldReference schema owners source t.name n .lookup
  let sheets := (Formula.sheetMentions text).filter fun (sheet, _) =>
    sheet != own.name && (schema.table? sheet).isNone
  tables ++ sheets.map fun (sheet, name) =>
    { sourceSheet := own.name, sourceField := field, targetSheet := sheet, targetField := name
      kind := .lookup, isResolved := false }

/-- Of references with one target the first. -/
def distinctTargets (refs : List Reference) : List Reference :=
  refs.foldl (fun acc r =>
    if acc.any (fun a => a.targetSheet == r.targetSheet && a.targetField == r.targetField) then acc
    else acc ++ [r]) []

def lookupFindings (schema : Schema) (owners : Owners) : List Finding :=
  schema.tables.flatMap fun t => t.fields.flatMap fun f =>
    match f.formula with
    | none => []
    | some formula =>
      if Formula.isLookup formula then
        (distinctTargets (lookupReferences schema owners t f.name formula)).map .reference
      else []

def sourceFindings (schema : Schema) (owners : Owners) : List Finding :=
  schema.tables.flatMap fun t => t.dependsOn.map fun source =>
    .reference (tableReference schema owners (t.name, "") source .dataSource)

def findings (schema : Schema) (owners : Owners) : List Finding :=
  chainFindings schema owners ++ lookupFindings schema owners ++ sourceFindings schema owners

def record (schema : Schema) (v : Verdict) : Finding → Verdict
  | .malformed warning => { v with warnings := v.warnings ++ [warning] }
  | .reference r =>
    if r.isResolved then { v with references := v.references ++ [r] }
    else
      { v with
        references := v.references ++ [r]
        unresolved := v.unresolved ++ [r]
        warnings := v.warnings ++ [explain schema r] }

/-- The edges between steps. -/
def structural (steps : List Step) : Verdict :=
  let report := StructureReport.ofSteps steps
  { missing := report.missing
    cycles := report.cycles
    errors := report.duplicates.map fun id => "Duplicate step id '" ++ id ++ "'" }

def withReview (v : Verdict) (review : SchemaReview) : Verdict :=
  { v with
    cycles := v.cycles ++ review.cycles
    errors := v.errors ++ review.errors
    warnings := v.warnings ++ review.warnings }

def run (steps : List Step) (schema : Option Schema) (owners : Owners)
    (review : Option SchemaReview) : Verdict :=
  let v := structural steps
  let v := match schema with
    | none => v
    | some s => (findings s owners).foldl (record s) v
  let v := match review with
    | none => v
    | some r => withReview v r
  v.settle

end Check

end WorkbookPlan
