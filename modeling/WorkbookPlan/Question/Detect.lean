import WorkbookPlan.Question.Basic
import WorkbookPlan.Settings.Basic
import WorkbookPlan.Text.Pattern

/-! Finding out from the shape of a task's description what is not clear about it. -/
namespace WorkbookPlan.Question

open Text Text.Pattern

/-- Characters of a sheet name without quotes. Where letter case does not matter, the combining iota
counts as a letter, since its capital is one. -/
def isSheetChar (c : Char) : Bool :=
  isLetterOrNumber c || c == '_' || c.toNat == 0x345

/-- A word for a sheet, or a sheet name in front of an exclamation mark, of which the last character
tells enough. -/
def sheetMention : Pattern :=
  anyOf [
    wholeWord ["sheet", "sheets", "table", "tables", "tab", "tabs", "worksheet", "workbook"],
    literal "工作表", literal "表格", literal "表",
    inOrder [one (· == '\x27'), many (· != '\x27') 1 none, one (· == '\x27'), one (· == '!')],
    seq (one isSheetChar) (one (· == '!'))]

def isLatin (c : Char) : Bool :=
  (latinFold c).isLower

def columnLetters : Pattern :=
  many isLatin 1 (some 3)

/-- A cell, its parts with or without dollar signs. -/
def cellName : Pattern :=
  inOrder [orEmpty (one (· == '$')), columnLetters, orEmpty (one (· == '$')),
    many Char.isDigit 1 none]

def rangeMention : Pattern :=
  anyOf [
    inOrder [wordEdge, cellName, orEmpty (seq (one (· == ':')) cellName), wordEdge],
    inOrder [wordEdge, columnLetters, one (· == ':'), columnLetters, wordEdge],
    wholeWord ["column", "columns", "col", "range", "ranges", "cell", "cells", "row", "rows",
      "field", "fields"],
    literal "列", literal "区域", literal "单元格", literal "字段", literal "行"]

def calculationMention : Pattern :=
  anyOf [
    wholeWord ["calculate", "calculates", "compute", "computes", "sum", "sums", "total", "totals",
      "multiply", "multiplied", "divide", "divided", "average", "subtract", "product"],
    literal "计算", literal "求和", literal "合计", literal "总计", literal "乘", literal "除",
    literal "平均"]

def isOperandEnd (c : Char) : Bool :=
  isLetterOrNumber c || c == '_' || c == ']' || c == ')'

def isOperandStart (c : Char) : Bool :=
  isLetterOrNumber c || c == '_' || c == '[' || c == '(' || c == '@'

def isOperator (c : Char) : Bool :=
  c == '*' || c == '/' || c == '+' || c == '×' || c == '÷'

/-- An operator between two operands, a minus between blanks, a function call or an equals sign. -/
def expressionMention : Pattern :=
  anyOf [
    inOrder [one isOperandEnd, blanks, one isOperator, blanks, one isOperandStart],
    inOrder [one isBlank, one (· == '-'), one isBlank],
    inOrder [wordEdge, one Char.isUpper,
      many (fun c => c.isUpper || c.isDigit || c == '.') 1 none, one (· == '(')],
    one (· == '=')]

def askIf (cause : Bool) (q : Question) : List Question :=
  if cause then [q] else []

/-- What is not clear about a description, blanks around it left out. -/
def detect (settings : Settings) (task : String) : List Question :=
  let text := trim task.toList
  let least := settings.minDescriptionChars
  askIf (text.length < least) (.tooShort text.length least)
    ++ askIf (!sheetMention.occursIn text) .whichSheet
    ++ askIf (!rangeMention.occursIn text) .whichRange
    ++ askIf (calculationMention.occursIn text && !expressionMention.occursIn text) .whichExpression

def ask (settings : Settings) (obstacle : Obstacle) (task : String) : String :=
  message obstacle (detect settings task)

end WorkbookPlan.Question
