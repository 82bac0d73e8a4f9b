import WorkbookPlan.Yaml.Quoted

/-! Names of nodes and of types: anchors, tags, and the directives about them. -/
namespace WorkbookPlan.Yaml

def readAnchor? (c : Cursor) : Option (List Char × Cursor) :=
  let (name, c) := (c.skip 1).spanWhile isWordChar
  let ended := endsWord c.rest || c.rest.head?.any fun d =>
    d == '?' || d == ':' || d == ',' || d == ']' || d == '\x7d' || d == '%' || d == '@'
      || d.toNat == 0x60
  if !name.isEmpty && ended then some (name, c) else none

namespace Tag

/-- A character that stands for itself in a tag; in angle brackets commas and brackets do too. -/
def isUriChar (verbatim : Bool) (c : Char) : Bool :=
  isWordChar c || c == ';' || c == '/' || c == '?' || c == ':' || c == '@' || c == '&' || c == '='
    || c == '+' || c == '$' || c == '.' || c == '!' || c == '~' || c == '*' || c == '\x27'
    || c == '(' || c == ')' || (verbatim && (c == ',' || c == '[' || c == ']'))

/-- How many octets a character has whose first octet this is. -/
def width? (octet : Nat) : Option Nat :=
  if octet < 0x80 then some 1
  else if octet < 0xC0 then none
  else if octet < 0xE0 then some 2
  else if octet < 0xF0 then some 3
  else if octet < 0xF8 then some 4
  else none

/-- Characters and escaped octets, read with the fuel of the text's length; `pending` octets of a
character are still to come. The text comes backwards, an octet as the character of that number. -/
def readUriFrom? (verbatim : Bool) :
    Nat → (pending : Nat) → List Char → Cursor → Option (List Char × Cursor)
  | 0, _, _, _ => none
  | fuel + 1, pending, text, c =>
    match c.rest with
    | '%' :: r =>
      let ds := r.take 2
      match if ds.length = 2 then digits? 16 ds else none with
      | none => none
      | some octet =>
        let next (n : Nat) := readUriFrom? verbatim fuel n (Char.ofNat octet :: text) (c.skip 3)
        match pending with
        | 0 => (width? octet).bind fun w => next (w - 1)
        | n + 1 => if 0x80 ≤ octet ∧ octet < 0xC0 then next n else none
    | d :: r =>
      if 0 < pending then none
      else if isUriChar verbatim d then readUriFrom? verbatim fuel 0 (d :: text) (c.move [d] r)
      else some (text, c)
    | [] => if 0 < pending then none else some (text, c)

/-- The text of a tag from here on, which may be empty. A NUL ends it. -/
def readUri? (verbatim : Bool) (fuel : Nat) (c : Cursor) : Option (List Char × Cursor) :=
  (readUriFrom? verbatim fuel 0 [] c).map fun (text, c) =>
    (text.reverse.takeWhile (·.toNat ≠ 0), c)

/-- An exclamation mark, the word characters behind it, and one more mark if it stands there. -/
def readHandle? (c : Cursor) : Option (List Char × Cursor) :=
  match c.rest with
  | '!' :: _ =>
    let (name, c) := (c.skip 1).spanWhile isWordChar
    match c.rest with
    | '!' :: _ => some ('!' :: name ++ ['!'], c.skip 1)
    | _ => some ('!' :: name, c)
  | _ => none

/-- A handle and what stands behind it. A handle ends in a mark; without one it is the first mark
alone, and the empty handle goes with a tag that is complete. -/
def readParts? (fuel : Nat) (c : Cursor) : Option (List Char × List Char × Cursor) :=
  match c.rest with
  | '!' :: '<' :: _ => do
    let start := c.skip 2
    let (text, c) ← readUri? true fuel start
    match c.rest with
    | '>' :: _ => if c.offset = start.offset then none else some ([], text, c.skip 1)
    | _ => none
  | _ => do
    let (handle, start) ← readHandle? c
    let (text, c) ← readUri? false fuel start
    if 1 < handle.length ∧ handle.getLast? = some '!' then
      if c.offset = start.offset then none else some (handle, text, c)
    else
      match handle.drop 1 ++ text with
      | [] => some ([], ['!'], c)
      | text => some (['!'], text, c)

/-- The tag that stands here, up to a gap, a line's end or, in brackets, a comma. -/
def read? (inFlow : Bool) (fuel : Nat) (c : Cursor) : Option (List Char × List Char × Cursor) := do
  let (handle, text, c) ← readParts? fuel c
  if endsWord c.rest || (inFlow && c.rest.head? == some ',') then some (handle, text, c) else none

end Tag

/-- What a line in front of a document says about it. -/
inductive Directive where
  | version (major minor : Nat)
  | tag (handle lead : List Char)
  deriving DecidableEq, Repr, Inhabited

namespace Directive

def readNumber? (c : Cursor) : Option (Nat × Cursor) :=
  let (ds, c) := c.spanWhile Char.isDigit
  if ds.length ≤ 9 then (digits? 10 ds).map (·, c) else none

def readVersion? (c : Cursor) : Option (Directive × Cursor) := do
  let (major, c) ← readNumber? (c.skipWhile isGap)
  match c.rest with
  | '.' :: _ => do
    let (minor, c) ← readNumber? (c.skip 1)
    some (version major minor, c)
  | _ => none

def readTag? (fuel : Nat) (c : Cursor) : Option (Directive × Cursor) := do
  let (handle, c) ← Tag.readHandle? (c.skipWhile isGap)
  if handle.getLast? ≠ some '!' then none
  else if !c.rest.head?.any isGap then none
  else
    let start := c.skipWhile isGap
    let (lead, c) ← Tag.readUri? true fuel start
    if c.offset = start.offset ∨ !endsWord c.rest then none else some (tag handle lead, c)

/-- The directive whose sign stands here, with the rest of its line. -/
def read? (fuel : Nat) (c : Cursor) : Option (Directive × Cursor) := do
  let (name, c) := (c.skip 1).spanWhile isWordChar
  if !endsWord c.rest then none
  else
    let (d, c) ←
      if name = "YAML".toList then readVersion? c
      else if name = "TAG".toList then readTag? fuel c
      else none
    some (d, ← c.skipLineEnd?)

end Directive

end WorkbookPlan.Yaml
