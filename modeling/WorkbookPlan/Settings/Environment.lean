import WorkbookPlan.Settings.Basic
import WorkbookPlan.Text.Basic

/-! Settings overridden by variables of the environment. -/
namespace WorkbookPlan.Settings

/-- A variable, the first value too large for it, and the setting it overrides. -/
structure Variable where
  name : String
  limit : Nat
  set : Nat → Settings → Settings

def Variable.all : List Variable :=
  [⟨"SHEET_PLANNER_FORMULA_SAMPLE_COUNT", UInt32.size,
      fun n s => { s with formulaSampleCount := n }⟩,
    ⟨"SHEET_PLANNER_MAX_REPLAN_ATTEMPTS", UInt32.size, fun n s => { s with maxRepairs := n }⟩,
    ⟨"SHEET_PLANNER_SPLIT_PARTS", UInt32.size, fun n s => { s with splitParts := n }⟩,
    ⟨"SHEET_PLANNER_STEP_COUNT_RISK_THRESHOLD", UInt64.size,
      fun n s => { s with stepCountThreshold := n }⟩,
    ⟨"SHEET_PLANNER_FORMULA_COUNT_RISK_THRESHOLD", UInt64.size,
      fun n s => { s with formulaCountThreshold := n }⟩,
    ⟨"SHEET_PLANNER_MIN_DESCRIPTION_CHARS", UInt64.size,
      fun n s => { s with minDescriptionChars := n }⟩]

/-- ASCII digits with a plus sign in front or none, of a value below the limit. -/
def readNumber? (limit : Nat) (cs : List Char) : Option Nat :=
  let digits := match cs with
    | '+' :: cs => cs
    | cs => cs
  if digits.isEmpty || !digits.all Char.isDigit then none
  else
    let n := Text.digitsValue digits
    if n < limit then some n else none

def override (lookup : String → Option String) (s : Settings) (v : Variable) :
    Except SettingsError Settings :=
  match lookup v.name with
  | none => .ok s
  | some value =>
    match readNumber? v.limit (Text.trim value.toList) with
    | some n => .ok (v.set n s)
    | none => .error (.invalidVariable v.name value)

/-- Override all settings whose variables are set, then validate. -/
def withEnvironment (lookup : String → Option String) (s : Settings) :
    Except SettingsError Settings := do
  let s ← Variable.all.foldlM (override lookup) s
  s.validate

end WorkbookPlan.Settings
