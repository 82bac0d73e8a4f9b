import WorkbookPlan.Yaml.Cursor

/-! Text in a block of its own, set off by indentation under a header. -/
namespace WorkbookPlan.Yaml.Block

/-- What becomes of the line breaks at the end: all are dropped, one stays, or all stay. -/
inductive Chomping where
  | strip
  | clip
  | keep
  deriving DecidableEq, Repr, Inhabited

/-- What a header says: the chomping, and how much deeper than its parent the block is, where it is
not the first line that shows it. -/
structure Header where
  chomping : Chomping := .clip
  increment : Option Nat := none
  deriving DecidableEq, Repr, Inhabited

def chompingOf? : Char → Option Chomping
  | '-' => some .strip
  | '+' => some .keep
  | _ => none

def readHeader? (c : Cursor) : Option (Header × Cursor) :=
  let chomping? (c : Cursor) : Option Chomping := c.rest.head?.bind chompingOf?
  let digit? (c : Cursor) : Option Nat :=
    (c.rest.head?.filter Char.isDigit).map fun d => d.toNat - 48
  let (first, c) := match chomping? c with
    | some k => (some k, c.skip 1)
    | none => (none, c)
  match digit? c with
  | some 0 => none
  | some n =>
    let c := c.skip 1
    match first, chomping? c with
    | some k, _ => some (⟨k, some n⟩, c)
    | none, some k => some (⟨k, some n⟩, c.skip 1)
    | none, none => some (⟨.clip, some n⟩, c)
  | none => some (⟨first.getD .clip, none⟩, c)

/-- Empty lines and the indentation of the next one that is not empty, with the fuel of the text's
length. As long as the indentation is not known, the deepest one is kept in mind. A tab must not
indent. The line breaks come backwards. -/
def readBreaks? (indent : Option Nat) :
    Nat → (deepest : Nat) → List Char → Cursor → Option (Nat × List Char × Cursor)
  | 0, _, _, _ => none
  | fuel + 1, deepest, breaks, c =>
    let c := match indent with
      | some n =>
        let k := ((c.rest.take (n - c.column)).takeWhile (· == ' ')).length
        c.skip k
      | none => c.skipWhile (· == ' ')
    let deepest := max deepest c.column
    if c.rest.head? == some '\t' && indent.all (c.column < ·) then none
    else
      match c.lineBreak? with
      | some (b, c) => readBreaks? indent fuel deepest (b :: breaks) c
      | none => some (deepest, breaks, c)

/-- The text so far, backwards, with the break behind its last line and the breaks of the empty
lines after it. -/
structure Lines where
  text : List Char := []
  last : Option Char := none
  breaks : List Char := []
  startsBlank : Bool := false
  deriving Repr, Inhabited

/-- Add a line. In a folded block the break between two lines that do not start with a gap is a
space, or nothing if empty lines follow it. -/
def Lines.add (folded : Bool) (s : Lines) (line : List Char) : Lines :=
  let blank := line.head?.any isGap
  let joint :=
    if folded && s.last == some '\n' && !s.startsBlank && !blank then
      if s.breaks.isEmpty then [' '] else []
    else s.last.toList
  ⟨line.reverse ++ s.breaks ++ joint ++ s.text, none, [], blank⟩

/-- The text, with the breaks at its end that the chomping leaves. -/
def Lines.chomp (k : Chomping) (s : Lines) : List Char :=
  let text := if k = .strip then s.text else s.last.toList ++ s.text
  (if k = .keep then s.breaks ++ text else text).reverse

/-- The lines that stand at the indentation, with the fuel of the text's length. -/
def readLines? (folded : Bool) (indent : Nat) : Nat → Lines → Cursor → Option (Lines × Cursor)
  | 0, _, _ => none
  | fuel + 1, s, c =>
    if c.column ≠ indent ∨ c.rest.isEmpty then some (s, c)
    else do
      let (line, c) := c.spanWhile (!isBreak ·)
      let (last, c) := match c.lineBreak? with
        | some (b, c) => (some b, c)
        | none => (none, c)
      let (_, breaks, c) ← readBreaks? (some indent) (fuel + 1) 0 [] c
      readLines? folded indent fuel { s.add folded line with last := last, breaks := breaks } c

/-- The block whose header stands here, under a parent that stands at `parent`. A block is at least
one column deeper. -/
def read? (folded : Bool) (parent : Int) (fuel : Nat) (c : Cursor) :
    Option (List Char × Cursor) := do
  let (header, c) ← readHeader? (c.skip 1)
  let c ← c.skipLineEnd?
  let least := (max 0 parent).toNat
  let given := header.increment.map (least + ·)
  let (deepest, breaks, c) ← readBreaks? given fuel 0 [] c
  let indent := given.getD (max deepest (max (parent + 1) 1).toNat)
  let (s, c) ← readLines? folded indent fuel { breaks := breaks } c
  some (s.chomp header.chomping, c)

end WorkbookPlan.Yaml.Block
