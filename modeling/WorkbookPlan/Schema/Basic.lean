import WorkbookPlan.Decimal.Binary64

/-! What a workbook is to hold: tables with fields, and the computed fields in the order in which
they are to be computed. -/
namespace WorkbookPlan

inductive RuleKind where
  | list
  | wholeNumber
  | decimal
  | date
  | textLength
  | custom
  deriving DecidableEq, Repr

structure FieldRule where
  kind : RuleKind
  /-- The allowed values of a list rule. -/
  values : List String := []
  min : Option Decimal.Binary64 := none
  max : Option Decimal.Binary64 := none
  /-- The logical formula of a custom rule. -/
  formula : Option String := none
  allowBlank : Bool := true
  /-- What to tell when input is rejected. -/
  message : Option String := none
  deriving DecidableEq, Repr

namespace FieldRule

def oneOf (values : List String) : FieldRule :=
  { kind := .list, values }

def between (kind : RuleKind) (min max : Decimal.Binary64) : FieldRule :=
  { kind, min := some min, max := some max }

end FieldRule

/-- A column of a table. Its formula names other fields, never cells. -/
structure Field where
  name : String
  formula : Option String := none
  rule : Option FieldRule := none
  description : Option String := none
  deriving DecidableEq, Repr

def Field.isComputed (f : Field) : Bool :=
  f.formula.isSome

/-- A table on a sheet of its own. -/
structure Table where
  name : String
  fields : List Field := []
  /-- Tables that are to exist before this one is created. -/
  dependsOn : List String := []
  deriving DecidableEq, Repr

namespace Table

def fieldNames (t : Table) : List String :=
  t.fields.map (·.name)

/-- The first field of a name. -/
def field? (t : Table) (name : String) : Option Field :=
  t.fields.find? (·.name == name)

def fieldIndex? (t : Table) (name : String) : Option Nat :=
  t.fields.findIdx? (·.name == name)

end Table

/-- A computed field, with the fields it needs as tokens `Sheet!Field`. -/
structure Computation where
  sheet : String
  field : String
  formula : String
  dependencies : List String := []
  deriving DecidableEq, Repr

structure Schema where
  tables : List Table := []
  /-- Table names in the order of creation. -/
  executionOrder : List String := []
  /-- The computed fields, those that others need first. -/
  calculationChain : List Computation := []
  deriving DecidableEq, Repr

namespace Schema

/-- The first table of a name. -/
def table? (s : Schema) (name : String) : Option Table :=
  s.tables.find? (·.name == name)

/-- A field of the first table of a name. -/
def field? (s : Schema) (table field : String) : Option Field :=
  (s.table? table).bind (·.field? field)

def isEmpty (s : Schema) : Bool :=
  s.tables.isEmpty

end Schema

/-- What the author of a schema found wrong with it. -/
structure SchemaReview where
  isValid : Bool := true
  errors : List String := []
  warnings : List String := []
  /-- Each cycle as a list of `Sheet!Field` names. -/
  cycles : List (List String) := []
  deriving DecidableEq, Repr

end WorkbookPlan
