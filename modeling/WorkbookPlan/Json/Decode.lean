import WorkbookPlan.Json.Basic

/-! Typed reading of values, and the record form in which structures are exchanged. -/
namespace WorkbookPlan

/-- A type with an exchange form. -/
class Wire (α : Type _) where
  encode : α → Json
  decode? : Json → Option α

/-- What is written reads back as itself. -/
class LawfulWire (α : Type _) [Wire α] : Prop where
  decode_encode (x : α) : Wire.decode? (Wire.encode x) = some x

export Wire (encode decode?)

namespace Wire

instance : Wire String where
  encode := .str
  decode? := Json.str?

instance : LawfulWire String := ⟨fun _ => rfl⟩

instance : Wire Bool where
  encode := .bool
  decode?
    | .bool b => some b
    | _ => none

instance : LawfulWire Bool := ⟨fun _ => rfl⟩

instance : Wire Json where
  encode := id
  decode? := some

instance : LawfulWire Json := ⟨fun _ => rfl⟩

/-- Null stands for what is no finite number. A whole number is read as the floating-point number
nearest to it. -/
instance : Wire Decimal.Binary64 where
  encode x := if x.isFinite then .float x else .null
  decode?
    | .float x => some x
    | .int i => some (Decimal.Binary64.ofInt i)
    | _ => none

theorem encode_of_isFinite {x : Decimal.Binary64} (h : x.isFinite = true) : encode x = .float x :=
  if_pos h

instance {α : Type _} [Wire α] : Wire (List α) where
  encode xs := .arr (xs.map encode)
  decode?
    | .arr items => items.mapM decode?
    | _ => none

theorem mapM_decode_encode {α : Type _} [Wire α] [LawfulWire α] (xs : List α) :
    (xs.map encode).mapM (decode? (α := α)) = some xs := by
  induction xs with
  | nil => rfl
  | cons x xs ih => simp [List.mapM_cons, LawfulWire.decode_encode, ih]

instance {α : Type _} [Wire α] [LawfulWire α] : LawfulWire (List α) :=
  ⟨fun xs => mapM_decode_encode xs⟩

end Wire

namespace Json

def natBelow? (limit : Nat) : Json → Option Nat
  | int (.ofNat n) => if n < limit then some n else none
  | _ => none

def nat32? : Json → Option Nat :=
  natBelow? UInt32.size

def nat64? : Json → Option Nat :=
  natBelow? UInt64.size

def nat (n : Nat) : Json :=
  int n

theorem natBelow?_nat {limit n : Nat} (h : n < limit) : natBelow? limit (nat n) = some n := by
  simp [natBelow?, nat, h]

/-- The name of a choice: the text itself, or the only key of an object that maps it to null. -/
def choice? : Json → Option String
  | str s => some s
  | obj [(k, null)] => some k
  | _ => none

/-- The parts of a record by name: an object's values, or the items of a list in the order in which
the record declares its parts. Values under other keys are left out of account. -/
def parts? (names : List String) : Json → Option (String → Option Json)
  | obj fields => some fun k => fields.lookup k
  | arr items =>
    if items.length ≤ names.length then some fun k => (names.zip items).lookup k else none
  | _ => none

end Json

/-! Readers of one part: it must be there, it may be missing, or it may be missing or null. -/

def required {α : Type _} (parts : String → Option Json) (read : Json → Option α) (k : String) :
    Option α :=
  (parts k).bind read

def withDefault {α : Type _} (parts : String → Option Json) (dflt : α) (read : Json → Option α)
    (k : String) : Option α :=
  match parts k with
  | none => some dflt
  | some j => read j

def nullable {α : Type _} (parts : String → Option Json) (read : Json → Option α) (k : String) :
    Option (Option α) :=
  match parts k with
  | none => some none
  | some .null => some none
  | some j => (read j).map some

/-- A field that is written only when there is a value. -/
def fieldIfSome {α : Type _} (k : String) (write : α → Json) : Option α → List (String × Json)
  | none => []
  | some x => [(k, write x)]

end WorkbookPlan
