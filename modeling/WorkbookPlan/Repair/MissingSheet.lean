import WorkbookPlan.Text.Pattern

/-! The sheet that an error text tells to be missing. -/
namespace WorkbookPlan.MissingSheet

open Text Text.Pattern

def isQuote (c : Char) : Bool :=
  c == '\x27' || c == '\x22'

/-- The word for a sheet and a name in quotes, which is kept. -/
def quotedSheet : Pattern :=
  inOrder [anyCase "sheet", someBlanks, one isQuote, keep 1 (many (!isQuote ·) 1 none),
    one isQuote, someBlanks]

def notFound : Pattern :=
  inOrder [quotedSheet, orEmpty (seq (anyCase "was") someBlanks), anyCase "not",
    someBlanks, anyCase "found"]

def doesNotExist : Pattern :=
  inOrder [quotedSheet, anyCase "does", someBlanks, anyCase "not", someBlanks, anyCase "exist"]

def isOpening (c : Char) : Bool :=
  isQuote c || c == '“' || c == '「'

def isClosing (c : Char) : Bool :=
  isQuote c || c == '”' || c == '」'

/-- The same in Chinese, with or without quotes. -/
def doesNotExistChinese : Pattern :=
  inOrder [literal "工作表", blanks, orEmpty (one isOpening),
    keep 1 (few (fun c => !isBlank c && !isClosing c) 1), orEmpty (one isClosing),
    blanks, literal "不存在"]

/-- The name that the first of the patterns finds, unless it is blank. -/
def find? (error : String) : Option String :=
  let text := error.toList
  match [notFound, doesNotExist, doesNotExistChinese].findSome? (·.search text) with
  | none => none
  | some m =>
    match trim ((m.kept? 1).getD []) with
    | [] => none
    | name => some (String.ofList name)

end WorkbookPlan.MissingSheet
