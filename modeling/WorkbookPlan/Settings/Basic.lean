import WorkbookPlan.Json.Decode

/-! The limits that planning and repairing keep to. -/
namespace WorkbookPlan

structure Settings where
  /-- Cells that a check for error values samples. -/
  formulaSampleCount : Nat := 5
  /-- Repairs of one plan, after which a failure ends the run. -/
  maxRepairs : Nat := 3
  /-- The most parts that a step is split into. -/
  splitParts : Nat := 3
  /-- More steps than this are a risk. -/
  stepCountThreshold : Nat := 20
  /-- More formula steps than this are a risk. -/
  formulaCountThreshold : Nat := 5
  /-- Shorter descriptions raise a question. -/
  minDescriptionChars : Nat := 8
  /-- Words of a description that stand for a lookup across tables. -/
  crossTableKeywords : List String :=
    ["lookup", "vlookup", "xlookup", "cross-table", "cross table", "across tables", "join", "match",
      "查找", "跨表", "关联", "引用"]
  /-- Actions too general to be run. -/
  disallowedActions : List String := ["execute", "execute_task", "run_task"]
  deriving DecidableEq, Repr, Inhabited

inductive SettingsError where
  | unreadable
  | notSettings
  | invalidVariable (name value : String)
  | outOfRange (field : String) (least value : Nat)
  deriving DecidableEq, Repr

namespace SettingsError

/-- The text of an error; for the first two it is left to those who read the file. -/
def message? : SettingsError → Option String
  | unreadable => none
  | notSettings => none
  | invalidVariable name value => some ("Invalid value '" ++ value ++ "' for " ++ name)
  | outOfRange field least value =>
    some (field ++ " must be at least " ++ toString least ++ ", got " ++ toString value)

end SettingsError

namespace Settings

/-- Sampling and splitting need one part at least. -/
def validate (s : Settings) : Except SettingsError Settings :=
  if s.formulaSampleCount < 1 then
    .error (.outOfRange "formula_sample_count" 1 s.formulaSampleCount)
  else if s.splitParts < 1 then .error (.outOfRange "split_parts" 1 s.splitParts)
  else .ok s

instance : Wire Settings where
  encode s := .object
    [("formula_sample_count", Json.nat s.formulaSampleCount),
      ("max_replan_attempts", Json.nat s.maxRepairs), ("split_parts", Json.nat s.splitParts),
      ("step_count_risk_threshold", Json.nat s.stepCountThreshold),
      ("formula_count_risk_threshold", Json.nat s.formulaCountThreshold),
      ("min_description_chars", Json.nat s.minDescriptionChars),
      ("cross_table_keywords", encode s.crossTableKeywords),
      ("disallowed_actions", encode s.disallowedActions)]
  decode? j := do
    let dflt : Settings := {}
    let parts ← j.parts?
      ["formula_sample_count", "max_replan_attempts", "split_parts", "step_count_risk_threshold",
        "formula_count_risk_threshold", "min_description_chars", "cross_table_keywords",
        "disallowed_actions"]
    let formulaSampleCount ←
      withDefault parts dflt.formulaSampleCount Json.nat32? "formula_sample_count"
    let maxRepairs ← withDefault parts dflt.maxRepairs Json.nat32? "max_replan_attempts"
    let splitParts ← withDefault parts dflt.splitParts Json.nat32? "split_parts"
    let stepCountThreshold ←
      withDefault parts dflt.stepCountThreshold Json.nat64? "step_count_risk_threshold"
    let formulaCountThreshold ←
      withDefault parts dflt.formulaCountThreshold Json.nat64? "formula_count_risk_threshold"
    let minDescriptionChars ←
      withDefault parts dflt.minDescriptionChars Json.nat64? "min_description_chars"
    let crossTableKeywords ←
      withDefault parts dflt.crossTableKeywords decode? "cross_table_keywords"
    let disallowedActions ← withDefault parts dflt.disallowedActions decode? "disallowed_actions"
    some ⟨formulaSampleCount, maxRepairs, splitParts, stepCountThreshold, formulaCountThreshold,
      minDescriptionChars, crossTableKeywords, disallowedActions⟩

end Settings

end WorkbookPlan
