import WorkbookPlan.Settings.Basic
import WorkbookPlan.Yaml.Reader
import WorkbookPlan.Sheet.Area

/-! Settings read from a document. -/
namespace WorkbookPlan.Settings

/-- Read one entry of a document; an entry under another key is left out of account. -/
def readSetting? (d : Yaml.Document) (s : Settings) (entry : String × Yaml) : Option Settings :=
  let value := entry.2
  let below (limit : Nat) : Option Nat := (d.nat? value).filter (· < limit)
  match entry.1 with
  | "formula_sample_count" => (below UInt32.size).map fun n => { s with formulaSampleCount := n }
  | "max_replan_attempts" => (below UInt32.size).map fun n => { s with maxRepairs := n }
  | "split_parts" => (below UInt32.size).map fun n => { s with splitParts := n }
  | "step_count_risk_threshold" =>
    (below UInt64.size).map fun n => { s with stepCountThreshold := n }
  | "formula_count_risk_threshold" =>
    (below UInt64.size).map fun n => { s with formulaCountThreshold := n }
  | "min_description_chars" => (below UInt64.size).map fun n => { s with minDescriptionChars := n }
  | "cross_table_keywords" => (d.texts? value).map fun ts => { s with crossTableKeywords := ts }
  | "disallowed_actions" => (d.texts? value).map fun ts => { s with disallowedActions := ts }
  | _ => some s

def keys : List String :=
  ["formula_sample_count", "max_replan_attempts", "split_parts", "step_count_risk_threshold",
    "formula_count_risk_threshold", "min_description_chars", "cross_table_keywords",
    "disallowed_actions"]

/-- Read a document; keys it lacks keep their defaults. A setting must not be given twice. -/
def ofDocument? (d : Yaml.Document) : Option Settings := do
  let entries ← d.entries?
  let known := (entries.map (·.1)).filter (keys.contains ·)
  if known.eraseDups.length < known.length then none
  else entries.foldlM (readSetting? d) {}

def ofText (text : String) : Except SettingsError Settings :=
  match (Yaml.Document.read? text).bind ofDocument? with
  | some s => s.validate
  | none => .error .notSettings

/-- Read and validate a file, which may be missing. -/
def ofFile : Option String → Except SettingsError Settings
  | none => .error .unreadable
  | some text => ofText text

inductive LoadError where
  | settings (e : SettingsError)
  | range (e : Sheet.ReferenceError)
  deriving DecidableEq, Repr

def LoadError.message? : LoadError → Option String
  | settings e => e.message?.map ("Config error: " ++ ·)
  | range e => some ("Range error: " ++ e.message)

def load (text range : String) : Except LoadError (Settings × Sheet.Area) := do
  let s ← (ofText text).mapError .settings
  let a ← (Sheet.Area.parse range).mapError .range
  .ok (s, a)

end WorkbookPlan.Settings
