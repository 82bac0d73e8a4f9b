import WorkbookPlan.Yaml.Gap

/-! Plain text: words without quotes, over one line or more. -/
namespace WorkbookPlan.Yaml.Plain

def isFlowIndicator (c : Char) : Bool :=
  c == ',' || c == '[' || c == ']' || c == '\x7b' || c == '\x7d'

def isIndicator (c : Char) : Bool :=
  isFlowIndicator c || c == '-' || c == '?' || c == ':' || c == '#' || c == '&' || c == '*'
    || c == '!' || c == '|' || c == '>' || c == '\x27' || c == '\x22' || c == '%' || c == '@'
    || c.toNat == 0x60

def starts (inFlow : Bool) : List Char → Bool
  | [] => false
  | c :: cs =>
    !(isGap c || isBreak c || isIndicator c)
      || (c == '-' && !cs.head?.any isGap)
      || (!inFlow && (c == '?' || c == ':') && !endsWord cs)

/-- One word, which comes backwards: up to a gap, a colon in front of one, or, in brackets, a
character that they are made of. In brackets a colon must not touch such a character. -/
def readWord? (inFlow : Bool) (word : List Char) : List Char → Option (List Char × List Char)
  | [] => some (word, [])
  | c :: cs =>
    if isGap c || isBreak c then some (word, c :: cs)
    else if inFlow && c == ':' && cs.head?.any (fun d => isFlowIndicator d || d == '?') then none
    else if (c == ':' && endsWord cs) || (inFlow && isFlowIndicator c) then some (word, c :: cs)
    else readWord? inFlow (c :: word) cs

/-- Words and the gaps between them, with the fuel of the text's length. Outside brackets the text
ends in front of a line that does not reach `indent`. The text comes backwards, and with the gap
that it ends in front of. -/
def readFrom? (inFlow : Bool) (indent : Int) :
    Nat → Gap → List Char → Cursor → Option (List Char × Gap × Cursor)
  | 0, _, _, _ => none
  | fuel + 1, gap, text, c =>
    if c.atDocumentMark || c.rest.head? == some '#' then some (text, gap, c)
    else do
      let (word, r) ← readWord? inFlow [] c.rest
      let c := c.move word r
      let (text, gap) :=
        if word.isEmpty then (text, gap) else (word ++ gap.onto text, .blanks [])
      if r.isEmpty || !endsWord r then some (text, gap, c)
      else
        let (gap, c) ← gap.read? indent (fuel + 1) c
        if !inFlow && decide ((c.column : Int) < indent) then some (text, gap, c)
        else readFrom? inFlow indent fuel gap text c

/-- The plain text that starts here, and whether it ends behind a line break. -/
def read? (inFlow : Bool) (indent : Int) (fuel : Nat) (c : Cursor) :
    Option (List Char × Bool × Cursor) :=
  (readFrom? inFlow indent fuel (.blanks []) [] c).map fun (text, gap, c) =>
    (text.reverse, gap.isBreaks, c)

end WorkbookPlan.Yaml.Plain
