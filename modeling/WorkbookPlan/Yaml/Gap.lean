import WorkbookPlan.Yaml.Cursor

/-! What stands between two words of a text, and what becomes of it. -/
namespace WorkbookPlan.Yaml

/-- Gaps within a line, or line breaks, the last character first. The first of the breaks is kept
apart; a break behind a backslash leaves nothing. -/
inductive Gap where
  | blanks (cs : List Char)
  | breaks (first : Option Char) (more : List Char)
  deriving Repr, Inhabited

namespace Gap

def isBreaks : Gap → Bool
  | blanks _ => false
  | breaks _ _ => true

/-- Put a gap behind text that is kept backwards. Gaps within a line stay as they are; a single line
break becomes a space, and of several the first is dropped. Separators always stay. -/
def onto (text : List Char) : Gap → List Char
  | blanks cs => cs ++ text
  | breaks (some '\n') [] => ' ' :: text
  | breaks (some '\n') more => more ++ text
  | breaks first more => more ++ first.toList ++ text

/-- Read on in a gap, with the fuel of the text's length. Gaps at the start of a line are dropped;
in columns before `indent` they must not be tabs. -/
def read? (indent : Int) : Nat → Gap → Cursor → Option (Gap × Cursor)
  | 0, _, _ => none
  | fuel + 1, gap, c =>
    match c.rest with
    | [] => some (gap, c)
    | b :: r =>
      if isGap b then
        match gap with
        | blanks bs => read? indent fuel (blanks (b :: bs)) (c.move [b] r)
        | breaks _ _ =>
          if b = '\t' ∧ (c.column : Int) < indent then none
          else read? indent fuel gap (c.move [b] r)
      else
        match c.lineBreak?, gap with
        | none, gap => some (gap, c)
        | some (b, c), blanks _ => read? indent fuel (breaks (some b) []) c
        | some (b, c), breaks first more => read? indent fuel (breaks first (b :: more)) c

end Gap

end WorkbookPlan.Yaml
