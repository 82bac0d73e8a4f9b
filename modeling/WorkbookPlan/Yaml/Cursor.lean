/-! Classes of characters, and the place that reading a document has reached. -/
namespace WorkbookPlan.Yaml

def isGap (c : Char) : Bool :=
  c == ' ' || c == '\t'

/-- Line breaks: LF, CR, NEL and the separators of lines and paragraphs. -/
def isBreak (c : Char) : Bool :=
  let n := c.toNat
  n == 0x0A || n == 0x0D || n == 0x85 || n == 0x2028 || n == 0x2029

def isPrintable (c : Char) : Bool :=
  let n := c.toNat
  n == 0x09 || n == 0x0A || n == 0x0D || (0x20 ≤ n && n ≤ 0x7E) || n == 0x85
    || (0xA0 ≤ n && n ≤ 0xFFFD) || 0x10000 ≤ n

/-- The characters of anchors, handles and directive names. -/
def isWordChar (c : Char) : Bool :=
  c.isAlphanum || c == '_' || c == '-'

/-- Nothing, a gap or a line break follows. -/
def endsWord : List Char → Bool
  | [] => true
  | c :: _ => isGap c || isBreak c

def octetCount (cs : List Char) : Nat :=
  cs.foldl (fun n c => n + c.utf8Size) 0

/-- What is still to be read, how many octets and lines have been read, and how many characters of
the line. -/
structure Cursor where
  rest : List Char
  offset : Nat := 0
  line : Nat := 0
  column : Nat := 0
  deriving Repr, Inhabited

namespace Cursor

/-- The cursor behind characters of a line, in front of `rest`. -/
def move (c : Cursor) (passed rest : List Char) : Cursor :=
  { c with
    rest := rest
    offset := c.offset + octetCount passed
    column := c.column + passed.length }

def skip (c : Cursor) (n : Nat) : Cursor :=
  c.move (c.rest.take n) (c.rest.drop n)

def spanWhile (p : Char → Bool) (c : Cursor) : List Char × Cursor :=
  let (taken, rest) := c.rest.span p
  (taken, c.move taken rest)

def skipWhile (p : Char → Bool) (c : Cursor) : Cursor :=
  (c.spanWhile p).2

/-- The line break that stands here, and the cursor behind it. All breaks but the two separators are
one and the same, CR and LF in a row too. -/
def lineBreak? (c : Cursor) : Option (Char × Cursor) :=
  let next (passed rest : List Char) : Cursor :=
    { c.move passed rest with line := c.line + 1, column := 0 }
  match c.rest with
  | [] => none
  | '\r' :: '\n' :: r => some ('\n', next ['\r', '\n'] r)
  | b :: r =>
    if isBreak b then some (if b.toNat < 0x2028 then '\n' else b, next [b] r) else none

def skipComment (c : Cursor) : Cursor :=
  match c.rest with
  | '#' :: _ => c.skipWhile (!isBreak ·)
  | _ => c

/-- The rest of a line that says no more: gaps, a comment and the break. -/
def skipLineEnd? (c : Cursor) : Option Cursor :=
  let c := (c.skipWhile isGap).skipComment
  match c.rest with
  | [] => some c
  | _ => c.lineBreak?.map (·.2)

/-- A line starts here with this mark of a document's start or end. -/
def atMark (mark : List Char) (c : Cursor) : Bool :=
  c.column == 0 && mark.isPrefixOf c.rest && endsWord (c.rest.drop mark.length)

def startMark : List Char := ['-', '-', '-']

def endMark : List Char := ['.', '.', '.']

def atDocumentMark (c : Cursor) : Bool :=
  c.atMark startMark || c.atMark endMark

end Cursor

end WorkbookPlan.Yaml
