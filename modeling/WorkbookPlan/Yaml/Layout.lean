import WorkbookPlan.Yaml.Basic
import WorkbookPlan.Yaml.Tag
import WorkbookPlan.Yaml.Plain
import WorkbookPlan.Yaml.Block

/-! The tokens of a document, and how its characters are read as tokens. A key is known for one only
at its colon; its token is then put in front of what has been read since. -/
namespace WorkbookPlan.Yaml

/-- Indentation is spelt out: what it opens and closes has tokens like brackets and braces have. -/
inductive Token where
  | directive (d : Directive)
  | documentStart
  | documentEnd
  | openBlockList
  | openBlockMap
  | closeBlock
  | openList
  | closeList
  | openMap
  | closeMap
  | dash
  | comma
  | key
  | value
  | aliasOf (name : List Char)
  | anchor (name : List Char)
  | tag (handle text : List Char)
  | scalar (style : Style) (text : List Char)
  deriving DecidableEq, Repr, Inhabited

/-- A place where a key may have started: how many tokens stood before it, and where it is. It is
required where anything but a key would break the indentation. -/
structure Candidate where
  required : Bool
  before : Nat
  offset : Nat
  line : Nat
  column : Nat
  deriving DecidableEq, Repr, Inhabited

/-- A key lies on one line and is at most 1024 octets long. -/
def Candidate.isStale (k : Candidate) (c : Cursor) : Bool :=
  k.line < c.line || k.offset + 1024 < c.offset

/-- How far the tokens have been read: the tokens backwards, the open indentations, a candidate for
a key on each level of brackets, and whether a key may start here. -/
structure Layout where
  cursor : Cursor
  tokens : List Token := []
  count : Nat := 0
  indent : Int := -1
  outerIndents : List Int := []
  candidate : Option Candidate := none
  outerCandidates : List (Option Candidate) := []
  keyAllowed : Bool := true
  deriving Repr, Inhabited

namespace Layout

def inFlow (l : Layout) : Bool :=
  !l.outerCandidates.isEmpty

def push (l : Layout) (t : Token) : Layout :=
  { l with tokens := t :: l.tokens, count := l.count + 1 }

def insertAt (l : Layout) (before : Nat) (t : Token) : Layout :=
  let newer := l.count - before
  { l with
    tokens := l.tokens.take newer ++ t :: l.tokens.drop newer
    count := l.count + 1 }

def moveTo (l : Layout) (c : Cursor) : Layout :=
  { l with cursor := c }

def dropCandidate? (l : Layout) : Option Layout :=
  if l.candidate.any (·.required) then none else some { l with candidate := none }

/-- Forget all candidates that are no key any more, unless one is required. -/
def dropStale? (l : Layout) : Option Layout :=
  let fresh? (k : Option Candidate) : Option (Option Candidate) :=
    match k with
    | some k => if k.isStale l.cursor then if k.required then none else some none else some (some k)
    | none => some none
  do
    let candidate ← fresh? l.candidate
    let outer ← l.outerCandidates.mapM fresh?
    some { l with candidate := candidate, outerCandidates := outer }

/-- A key may start here, where one is allowed. -/
def noteCandidate? (l : Layout) : Option Layout :=
  if l.keyAllowed then do
    let l ← l.dropCandidate?
    let c := l.cursor
    let required := !l.inFlow && l.indent == (c.column : Int)
    some { l with candidate := some ⟨required, l.count, c.offset, c.line, c.column⟩ }
  else some l

/-- Open an indentation at a column, if it is deeper; its token is put in behind the first `before`
tokens. -/
def openIndent (l : Layout) (column before : Nat) (t : Token) : Layout :=
  if !l.inFlow && decide (l.indent < (column : Int)) then
    { l with indent := column, outerIndents := l.indent :: l.outerIndents }.insertAt before t
  else l

def closeIndents (column : Int) (l : Layout) : Layout :=
  if l.inFlow then l
  else go l.outerIndents l
where
  go : List Int → Layout → Layout
  | [], l => l
  | outer :: rest, l =>
    if column < l.indent then
      go rest ({ l with indent := outer, outerIndents := rest }.push .closeBlock)
    else l

/-- Go on to the next token, with the fuel of the text's length. A byte order mark may stand in
front of a line, where it takes a column. Tabs stand between tokens only where no key may start. -/
def skipToToken : Nat → Layout → Layout
  | 0, l => l
  | fuel + 1, l =>
    let c := match l.cursor.rest with
      | b :: _ => if l.cursor.column = 0 ∧ b.toNat = 0xFEFF then l.cursor.skip 1 else l.cursor
      | [] => l.cursor
    let tabs := l.inFlow || !l.keyAllowed
    let c := (c.skipWhile fun b => b == ' ' || (tabs && b == '\t')).skipComment
    match c.lineBreak? with
    | some (_, c) =>
      skipToToken fuel { l with cursor := c, keyAllowed := l.keyAllowed || !l.inFlow }
    | none => l.moveTo c

def sign (t : Token) (n : Nat) (l : Layout) : Layout :=
  (l.moveTo (l.cursor.skip n)).push t

/-- A token that stands outside all indentation. -/
def atMargin? (l : Layout) : Option Layout := do
  let l ← (l.closeIndents (-1)).dropCandidate?
  some { l with keyAllowed := false }

/-- An opening bracket or brace; it may start a key, and so may what follows it. -/
def openFlow? (t : Token) (l : Layout) : Option Layout := do
  let l ← l.noteCandidate?
  some ({ l with
    candidate := none
    outerCandidates := l.candidate :: l.outerCandidates
    keyAllowed := true }.sign t 1)

def closeFlow? (t : Token) (l : Layout) : Option Layout := do
  let l ← l.dropCandidate?
  let l := match l.outerCandidates with
    | [] => l
    | k :: ks => { l with candidate := k, outerCandidates := ks }
  some ({ l with keyAllowed := false }.sign t 1)

def comma? (l : Layout) : Option Layout := do
  let l ← l.dropCandidate?
  some ({ l with keyAllowed := true }.sign .comma 1)

/-- Outside brackets a dash, a question mark or a colon without a key before it stands only where a
key may start, and opens an indentation. -/
def openAtSign? (t : Token) (l : Layout) : Option Layout :=
  if l.inFlow then some l
  else if l.keyAllowed then some (l.openIndent l.cursor.column l.count t)
  else none

def dash? (l : Layout) : Option Layout := do
  let l ← l.openAtSign? .openBlockList
  let l ← l.dropCandidate?
  some ({ l with keyAllowed := true }.sign .dash 1)

def key? (l : Layout) : Option Layout := do
  let l ← l.openAtSign? .openBlockMap
  let l ← l.dropCandidate?
  some ({ l with keyAllowed := !l.inFlow }.sign .key 1)

/-- A colon makes the candidate a key. -/
def value? (l : Layout) : Option Layout :=
  match l.candidate with
  | some k =>
    let l := (l.insertAt k.before .key).openIndent k.column k.before .openBlockMap
    some ({ l with candidate := none, keyAllowed := false }.sign .value 1)
  | none => do
    let l ← l.openAtSign? .openBlockMap
    some ({ l with keyAllowed := !l.inFlow }.sign .value 1)

/-- A token that may start a key, but in front of which none may start. -/
def noteStart? (l : Layout) : Option Layout := do
  let l ← l.noteCandidate?
  some { l with keyAllowed := false }

def block? (folded : Bool) (fuel : Nat) (l : Layout) : Option Layout := do
  let l ← l.dropCandidate?
  let (text, c) ← Block.read? folded l.indent fuel l.cursor
  some (({ l with keyAllowed := true }.moveTo c).push
    (.scalar (if folded then .folded else .literal) text))

/-- A key may start behind plain text that ends with its line. -/
def plain? (fuel : Nat) (l : Layout) : Option Layout := do
  let l ← l.noteStart?
  let (text, endsLine, c) ← Plain.read? l.inFlow (l.indent + 1) fuel l.cursor
  some (({ l with keyAllowed := endsLine }.moveTo c).push (.scalar .plain text))

/-- Read the token that starts with this character, in front of the given rest. -/
def token? (fuel : Nat) (l : Layout) (b : Char) (r : List Char) : Option Layout :=
  let c := l.cursor
  let isSign := l.inFlow || endsWord r
  if c.column = 0 ∧ b = '%' then do
    let l ← l.atMargin?
    let (d, c) ← Directive.read? fuel l.cursor
    some ((l.moveTo c).push (.directive d))
  else if c.atMark Cursor.startMark then l.atMargin?.map (·.sign .documentStart 3)
  else if c.atMark Cursor.endMark then l.atMargin?.map (·.sign .documentEnd 3)
  else if b = '[' then l.openFlow? .openList
  else if b = '\x7b' then l.openFlow? .openMap
  else if b = ']' then l.closeFlow? .closeList
  else if b = '\x7d' then l.closeFlow? .closeMap
  else if b = ',' then l.comma?
  else if b = '-' ∧ endsWord r then l.dash?
  else if b = '?' ∧ isSign then l.key?
  else if b = ':' ∧ isSign then l.value?
  else if b = '*' ∨ b = '&' then do
    let l ← l.noteStart?
    let (name, c) ← readAnchor? l.cursor
    some ((l.moveTo c).push (if b = '*' then .aliasOf name else .anchor name))
  else if b = '!' then do
    let l ← l.noteStart?
    let (handle, text, c) ← Tag.read? l.inFlow fuel l.cursor
    some ((l.moveTo c).push (.tag handle text))
  else if b = '|' ∧ !l.inFlow then l.block? false fuel
  else if b = '>' ∧ !l.inFlow then l.block? true fuel
  else if b = '\x27' ∨ b = '\x22' then do
    let l ← l.noteStart?
    let (text, c) ← Quoted.read? b fuel l.cursor
    some ((l.moveTo c).push (.scalar .quoted text))
  else if Plain.starts l.inFlow (b :: r) then l.plain? fuel
  else none

def readAll? : Nat → Layout → Option Layout
  | 0, _ => none
  | fuel + 1, l => do
    let l ← (l.skipToToken (fuel + 1)).dropStale?
    let l := l.closeIndents l.cursor.column
    match l.cursor.rest with
    | [] => l.atMargin?
    | b :: r => readAll? fuel (← l.token? (fuel + 1) b r)

end Layout

def Token.ofChars? (cs : List Char) : Option (List Token) :=
  if cs.all isPrintable then
    (Layout.readAll? (cs.length + 2) { cursor := { rest := cs } }).map (·.tokens.reverse)
  else none

end WorkbookPlan.Yaml
