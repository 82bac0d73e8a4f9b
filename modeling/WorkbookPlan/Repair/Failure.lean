import WorkbookPlan.Schema.Exchange
import WorkbookPlan.Text.Basic
import WorkbookPlan.Text.Case

/-! Kinds of failure, told apart by the error text of a step. -/
namespace WorkbookPlan

inductive Failure where
  /-- A formula refers to cells that are not there. -/
  | badReference
  /-- A formula yields an error value. -/
  | badValue
  /-- A formula uses a name that the host does not know. -/
  | unknownName
  /-- Something that the step needs does not exist. -/
  | missing
  | timeout
  /-- Any other error. -/
  | execution
  /-- There is no error text. -/
  | unexplained
  deriving DecidableEq, Repr

namespace Failure

def name : Failure → String
  | badReference => "reference_error"
  | badValue => "value_error"
  | unknownName => "name_error"
  | missing => "missing_dependency"
  | timeout => "timeout"
  | execution => "execution_error"
  | unexplained => "unknown"

def all : List Failure :=
  [badReference, badValue, unknownName, missing, timeout, execution, unexplained]

instance : Wire Failure where
  encode f := .str f.name
  decode? := Json.oneOf? all name

def holdsOne (parts : List String) (text : List Char) : Bool :=
  parts.any fun p => Text.contains p.toList text

/-- The kind of an error text. Error codes come before words, and letter case does not matter. -/
def ofText (error : String) : Failure :=
  let text := Text.trim error.toList
  let capitals := Text.upper text
  let small := Text.lower text
  if text.isEmpty then unexplained
  else if holdsOne ["#REF!"] capitals then badReference
  else if holdsOne ["#VALUE!", "#DIV/0!", "#N/A"] capitals then badValue
  else if holdsOne ["#NAME?"] capitals then unknownName
  else if holdsOne ["timeout", "timed out", "超时"] small then timeout
  else if holdsOne ["not found", "does not exist", "不存在", "找不到"] small then missing
  else execution

end Failure

end WorkbookPlan
