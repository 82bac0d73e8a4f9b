/-! Questions to the author of a task from which no plan can be made. -/
namespace WorkbookPlan

/-- What is not clear about a task. -/
inductive Question where
  /-- So many characters, of at least so many. -/
  | tooShort (chars least : Nat)
  | whichSheet
  | whichRange
  | whichExpression
  deriving DecidableEq, Repr

namespace Question

def text : Question → String
  | tooShort chars least =>
    "The description is very short (" ++ toString chars ++ " of at least " ++ toString least
      ++ " characters). What result do you want?"
  | whichSheet => "Which sheet or table should this apply to?"
  | whichRange => "Which columns or cell range are involved?"
  | whichExpression =>
    "You mentioned a calculation. Which fields should be combined, and with which operation?"

end Question

inductive Obstacle where
  | noSchema
  /-- The schema leads to no steps. -/
  | noSteps
  /-- A step's action is too general to be run. -/
  | disallowed (action : String)
  deriving DecidableEq, Repr

namespace Obstacle

def text : Obstacle → String
  | noSchema => "I need a bit more detail before I can build a plan."
  | noSteps => "I could not derive any spreadsheet steps from this request."
  | disallowed action =>
    "The request resolved to a generic '" ++ action
      ++ "' action, which cannot be executed safely."

end Obstacle

namespace Question

/-- The questions, one a line, or a general one if there are none. -/
def lines : List Question → List String
  | [] =>
    ["- Please describe the tables you need, their fields, and how any computed fields "
      ++ "are derived."]
  | questions => questions.map ("- " ++ ·.text)

/-- A message of the obstacle, an empty line and the questions. -/
def message (obstacle : Obstacle) (questions : List Question) : String :=
  "\n".intercalate (obstacle.text :: "" :: lines questions)

end Question

end WorkbookPlan
