import WorkbookPlan.Decimal.Binary64
import WorkbookPlan.Keyed

/-! Free values: what a step's parameters, an expected value or an executor's output may hold. -/
namespace WorkbookPlan

/-- A value of the exchange format. Whole numbers and floating-point numbers stay apart; an
object's keys rise. -/
inductive Json where
  | null
  | bool (b : Bool)
  | int (i : Int)
  | float (x : Decimal.Binary64)
  | str (s : String)
  | arr (items : List Json)
  | obj (fields : List (String × Json))
  deriving Repr, Inhabited

namespace Json

mutual

private def decEq : (a b : Json) → Decidable (a = b)
  | null, null => isTrue rfl
  | bool a, bool b => if h : a = b then isTrue (h ▸ rfl) else isFalse fun e => h (by injection e)
  | int a, int b => if h : a = b then isTrue (h ▸ rfl) else isFalse fun e => h (by injection e)
  | float a, float b => if h : a = b then isTrue (h ▸ rfl) else isFalse fun e => h (by injection e)
  | str a, str b => if h : a = b then isTrue (h ▸ rfl) else isFalse fun e => h (by injection e)
  | arr a, arr b =>
    match decEqItems a b with
    | isTrue h => isTrue (h ▸ rfl)
    | isFalse h => isFalse fun e => h (by injection e)
  | obj a, obj b =>
    match decEqFields a b with
    | isTrue h => isTrue (h ▸ rfl)
    | isFalse h => isFalse fun e => h (by injection e)
  | null, bool _ | null, int _ | null, float _ | null, str _ | null, arr _ | null, obj _
  | bool _, null | bool _, int _ | bool _, float _ | bool _, str _ | bool _, arr _ | bool _, obj _
  | int _, null | int _, bool _ | int _, float _ | int _, str _ | int _, arr _ | int _, obj _
  | float _, null | float _, bool _ | float _, int _ | float _, str _ | float _, arr _
  | float _, obj _
  | str _, null | str _, bool _ | str _, int _ | str _, float _ | str _, arr _ | str _, obj _
  | arr _, null | arr _, bool _ | arr _, int _ | arr _, float _ | arr _, str _ | arr _, obj _
  | obj _, null | obj _, bool _ | obj _, int _ | obj _, float _ | obj _, str _ | obj _, arr _ =>
    isFalse fun e => nomatch e

private def decEqItems : (a b : List Json) → Decidable (a = b)
  | [], [] => isTrue rfl
  | [], _ :: _ | _ :: _, [] => isFalse fun e => nomatch e
  | a :: as, b :: bs =>
    match decEq a b, decEqItems as bs with
    | isTrue h, isTrue hs => isTrue (h ▸ hs ▸ rfl)
    | isFalse h, _ => isFalse fun e => h (by injection e)
    | _, isFalse h => isFalse fun e => h (by injection e)

private def decEqFields : (a b : List (String × Json)) → Decidable (a = b)
  | [], [] => isTrue rfl
  | [], _ :: _ | _ :: _, [] => isFalse fun e => nomatch e
  | (j, a) :: as, (k, b) :: bs =>
    match instDecidableEqString j k, decEq a b, decEqFields as bs with
    | isTrue hk, isTrue h, isTrue hs => isTrue (hk ▸ h ▸ hs ▸ rfl)
    | isFalse h, _, _ => isFalse fun e => h (by injection e with e; injection e)
    | _, isFalse h, _ => isFalse fun e => h (by injection e with e; injection e)
    | _, _, isFalse h => isFalse fun e => h (by injection e)

end

instance : DecidableEq Json := decEq

def object (fields : List (String × Json)) : Json :=
  obj (Keyed.ofList fields)

def get? : Json → String → Option Json
  | obj fields, k => fields.lookup k
  | _, _ => none

def str? : Json → Option String
  | str s => some s
  | _ => none

def textAt? (j : Json) (k : String) : Option String :=
  (j.get? k).bind str?

/-- The object with a value put under a key; any other value gives way to a new object. -/
def set (j : Json) (k : String) (v : Json) : Json :=
  match j with
  | obj fields => obj (Keyed.insert k v fields)
  | _ => obj [(k, v)]

def strings (ss : List String) : Json :=
  arr (ss.map str)

theorem get?_set_self (j : Json) (k : String) (v : Json) : (j.set k v).get? k = some v := by
  cases j <;> simp [set, get?, Keyed.lookup_insert_self]

theorem get?_set_obj_of_ne {k k₀ : String} (h : k₀ ≠ k) (fields : List (String × Json)) (v : Json) :
    ((obj fields).set k v).get? k₀ = (obj fields).get? k₀ :=
  Keyed.lookup_insert_of_ne h v fields

end Json

end WorkbookPlan
