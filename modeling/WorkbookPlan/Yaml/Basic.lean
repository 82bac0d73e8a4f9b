import WorkbookPlan.Yaml.Quoted

/-! Documents made of scalars, lists and maps. -/
namespace WorkbookPlan

inductive Yaml.Style where
  | plain
  | quoted
  | literal
  | folded
  deriving DecidableEq, Repr, Inhabited

/-- A node of a document. An alias stands for the node whose anchor has its number. -/
inductive Yaml where
  | scalar (style : Yaml.Style) (tag : Option String) (text : List Char)
  | list (items : List Yaml)
  | map (entries : List (Yaml × Yaml))
  | aliasOf (number : Nat)
  deriving Repr, Inhabited

namespace Yaml

def nothing : Yaml :=
  scalar .plain none []

def coreTag (name : String) : String :=
  "tag:yaml.org,2002:" ++ name

/-- A value without text, whatever its tag. -/
def isNothing : Yaml → Bool
  | scalar style _ text => style == .plain && text.isEmpty
  | _ => false

/-- The natural number that a text spells: decimal, or in base 16, 8 or 2 behind 0x, 0o or 0b, with
a plus sign in front or none. Decimal digits behind a leading zero are text. -/
def spelledNat? (text : List Char) : Option Nat :=
  let unsigned := match text with
    | '+' :: cs => cs
    | cs => cs
  match unsigned with
  | '0' :: 'x' :: cs => digits? 16 cs
  | '0' :: 'o' :: cs => digits? 8 cs
  | '0' :: 'b' :: cs => digits? 2 cs
  | '0' :: _ :: _ => none
  | cs => if cs.all Char.isDigit then digits? 10 cs else none

/-- The natural number of a plain scalar, or of a literal block that is tagged as a whole number. -/
def nat? : Yaml → Option Nat
  | scalar .plain _ text => spelledNat? text
  | scalar .literal tag text => if tag = some (coreTag "int") then spelledNat? text else none
  | _ => none

def text? : Yaml → Option String
  | scalar _ _ text => some (String.ofList text)
  | _ => none

/-- A node, and the nodes that have an anchor, each with the number of the anchor and its place
among them. -/
structure Document where
  root : Yaml
  anchored : List (Nat × Nat × Yaml) := []
  deriving Repr, Inhabited

namespace Document

/-- Of the nodes with anchors of one number, the last is meant. -/
def anchored? (d : Document) (number : Nat) : Option Yaml :=
  let same := d.anchored.filter (·.1 == number)
  let last := same.foldl (fun n a => max n a.2.1) 0
  (same.find? (·.2.1 == last)).map (·.2.2)

def target? (d : Document) : Yaml → Option Yaml
  | aliasOf number => d.anchored? number
  | y => some y

def nat? (d : Document) (y : Yaml) : Option Nat :=
  (d.target? y).bind Yaml.nat?

def text? (d : Document) (y : Yaml) : Option String :=
  (d.target? y).bind Yaml.text?

/-- A list of texts; a missing value is an empty list. -/
def texts? (d : Document) (y : Yaml) : Option (List String) :=
  (d.target? y).bind fun
    | list items => items.mapM d.text?
    | y => if y.isNothing then some [] else none

/-- The entries of the document's map, their keys read as texts. A document that says nothing has
none. -/
def entries? (d : Document) : Option (List (String × Yaml)) :=
  match d.root with
  | map entries => entries.mapM fun (k, v) => (d.text? k).map (·, v)
  | y => if y.isNothing then some [] else none

end Document

end Yaml

end WorkbookPlan
