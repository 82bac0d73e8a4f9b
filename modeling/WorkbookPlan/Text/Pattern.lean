import WorkbookPlan.Text.Basic
import WorkbookPlan.Text.Word

/-! Text patterns. A pattern lists the ways it matches at a place, preferred ones first; a search
takes the first way at the leftmost place that has one. -/
namespace WorkbookPlan.Text

/-- A place in a text: the character just passed, and the characters ahead. -/
structure Place where
  before : Option Char
  ahead : List Char
  deriving DecidableEq, Repr

namespace Place

/-- The places reached by passing zero, one, two, … characters of a class. -/
def steps (p : Char → Bool) : Option Char → List Char → List Place
  | b, [] => [⟨b, []⟩]
  | b, c :: cs => ⟨b, c :: cs⟩ :: (if p c then steps p (some c) cs else [])

/-- Exactly one of the two neighbours is a word character. -/
def atWordEdge (pl : Place) : Bool :=
  pl.before.any isWordChar != pl.ahead.head?.any isWordChar

end Place

inductive Pattern where
  /-- No text. -/
  | empty
  /-- One character of a class. -/
  | one (p : Char → Bool)
  /-- At least `least` and at most `most` characters of a class, more before fewer. -/
  | many (p : Char → Bool) (least : Nat) (most : Option Nat)
  /-- At least `least` characters of a class, fewer before more. -/
  | few (p : Char → Bool) (least : Nat)
  /-- No text, between a word character and one that is none. -/
  | wordEdge
  | seq (a b : Pattern)
  /-- The first pattern before the second. -/
  | alt (a b : Pattern)
  /-- Keep the text that is matched, under a number. -/
  | keep (n : Nat) (a : Pattern)

/-- A way to match: the place behind the text, and under each number what lies ahead where a part
that is kept starts and where it ends. -/
structure Match where
  place : Place
  kept : List (Nat × List Char × List Char)
  deriving DecidableEq, Repr

namespace Match

def kept? (m : Match) (n : Nat) : Option (List Char) :=
  (m.kept.lookup n).map fun (ahead, rest) => ahead.take (ahead.length - rest.length)

end Match

namespace Pattern

/-- Every way to match at a place, preferred ones first. -/
def ways : Pattern → Place → List Match
  | empty, pl => [⟨pl, []⟩]
  | one p, pl =>
    match pl.ahead with
    | [] => []
    | c :: cs => if p c then [⟨⟨some c, cs⟩, []⟩] else []
  | many p least most, pl =>
    let ends := (Place.steps p pl.before pl.ahead).drop least
    let ends := match most with
      | none => ends
      | some m => ends.take (m + 1 - least)
    ends.reverse.map (⟨·, []⟩)
  | few p least, pl => ((Place.steps p pl.before pl.ahead).drop least).map (⟨·, []⟩)
  | wordEdge, pl => if pl.atWordEdge then [⟨pl, []⟩] else []
  | seq a b, pl =>
    (a.ways pl).flatMap fun m => (b.ways m.place).map fun k => ⟨k.place, m.kept ++ k.kept⟩
  | alt a b, pl => a.ways pl ++ b.ways pl
  | keep n a, pl =>
    (a.ways pl).map fun m => ⟨m.place, (n, pl.ahead, m.place.ahead) :: m.kept⟩

/-- The preferred match at the leftmost place that has one. -/
def searchFrom (p : Pattern) : Option Char → List Char → Option Match
  | b, [] => (p.ways ⟨b, []⟩).head?
  | b, c :: cs =>
    match (p.ways ⟨b, c :: cs⟩).head? with
    | some m => some m
    | none => searchFrom p (some c) cs

def search (p : Pattern) (text : List Char) : Option Match :=
  p.searchFrom none text

def occursIn (p : Pattern) (text : List Char) : Bool :=
  (p.search text).isSome

/-! Shorthands. -/

def never : Pattern :=
  one fun _ => false

def anyOf (ps : List Pattern) : Pattern :=
  ps.foldr alt never

def inOrder (ps : List Pattern) : Pattern :=
  ps.foldr seq empty

/-- The pattern or no text, the pattern first. -/
def orEmpty (p : Pattern) : Pattern :=
  alt p empty

def literal (s : String) : Pattern :=
  inOrder (s.toList.map fun c => one (· == c))

/-- The small Latin letter that a character is a form of. The long s and the Kelvin sign are forms
of Latin letters too. -/
def latinFold (c : Char) : Char :=
  if c.toNat = 0x17F then 's' else if c.toNat = 0x212A then 'k' else c.toLower

/-- This text of small Latin letters, in any letter case. -/
def anyCase (s : String) : Pattern :=
  inOrder (s.toList.map fun c => one (latinFold · == c))

/-- One of these words, in any letter case and not inside a longer word. -/
def wholeWord (words : List String) : Pattern :=
  inOrder [wordEdge, anyOf (words.map anyCase), wordEdge]

def blanks : Pattern :=
  many isBlank 0 none

def someBlanks : Pattern :=
  many isBlank 1 none

end Pattern

end WorkbookPlan.Text
