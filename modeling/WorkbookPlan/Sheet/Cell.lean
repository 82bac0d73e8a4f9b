import WorkbookPlan.Sheet.Column
import WorkbookPlan.Text.Basic

/-! Single cells, and the parts that references are made of. -/
namespace WorkbookPlan.Sheet

/-- A cell: the column counted from zero, the row from one. -/
structure Cell where
  col : Nat
  row : Nat
  deriving DecidableEq, Repr

def dropDollar : List Char → List Char
  | '$' :: cs => cs
  | cs => cs

/-- A column with or without a row, each with or without a dollar sign. -/
def readPart (cs : List Char) : Except ReferenceError (Nat × Option Nat) :=
  if cs.isEmpty then .error .empty
  else do
    let cs := dropDollar cs
    let col ← Column.read (cs.takeWhile Char.isAlpha)
    let rest := dropDollar (cs.dropWhile Char.isAlpha)
    if rest.isEmpty then .ok (col, none)
    else if !rest.all Char.isDigit then .error (.malformed (String.ofList cs))
    else
      let row := Text.digitsValue rest
      if row = 0 ∨ maxRows < row then .error (.invalidRow (String.ofList cs))
      else .ok (col, some row)

namespace Cell

/-- A part with a row, blanks around it left out. -/
def read (cs : List Char) : Except ReferenceError Cell := do
  let cs := Text.trim cs
  match ← readPart cs with
  | (col, some row) => .ok ⟨col, row⟩
  | (_, none) => .error (.invalidRow (String.ofList cs))

def parse (s : String) : Except ReferenceError Cell :=
  read s.toList

def text (c : Cell) : String :=
  Column.name c.col ++ toString c.row

end Cell

/-- A reference cut at its last exclamation mark: the sheet without the single quotes around it, if
there is a mark, and the local part. -/
def splitSheet (cs : List Char) : Option (List Char) × List Char :=
  match Text.cutLast? '!' cs with
  | some (sheet, loc) =>
    (some (Text.dropEndWhile (· == '\x27') (sheet.dropWhile (· == '\x27'))), loc)
  | none => (none, cs)

def localPart (s : String) : String :=
  String.ofList (splitSheet s.toList).2

end WorkbookPlan.Sheet
