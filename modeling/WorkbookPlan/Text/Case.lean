import WorkbookPlan.Text.CaseTable

/-! Small and capital forms of text. -/
namespace WorkbookPlan.Text

/-- The small form of one character, the capital sigma apart. The dotted capital I becomes an i
with a combining dot. -/
def smallForm (c : Char) : List Char :=
  let n := c.toNat
  if n < 128 then [c.toLower]
  else if n = 0x130 then ['i', Char.ofNat 0x307]
  else match smallLetterRuns.findSome? (·.image? n) with
    | some m => [Char.ofNat m]
    | none => [c]

def isCased (c : Char) : Bool :=
  if c.toNat < 128 then c.isAlpha else CodePoint.inside casedBounds c.toNat

def isCaseIgnorable (c : Char) : Bool :=
  if c.toNat < 128 then c == '\x27' || c == '.' || c == ':' || c == '^' || c.toNat == 0x60
  else CodePoint.inside caseIgnorableBounds c.toNat

/-- Whether the first character that matters for case is a cased one. -/
def startsCased (cs : List Char) : Bool :=
  match cs.dropWhile isCaseIgnorable with
  | [] => false
  | c :: _ => isCased c

/-- Walk through text with the characters already passed, nearest first. A capital sigma becomes a
final sigma at the end of a word of at least two cased characters. -/
def lowerFrom (before : List Char) : List Char → List Char
  | [] => []
  | c :: cs =>
    let small :=
      if c.toNat = 0x3A3 then
        [Char.ofNat (if startsCased before && !startsCased cs then 0x3C2 else 0x3C3)]
      else smallForm c
    small ++ lowerFrom (c :: before) cs

def lower (cs : List Char) : List Char :=
  lowerFrom [] cs

/-- The capital form of a character, as far as capitals of the Latin alphabet are in it. All other
characters stand for themselves: codes and function names are spelt in ASCII. -/
def latinCapital (c : Char) : List Char :=
  match c.toNat with
  | 0xDF => ['S', 'S']
  | 0x131 => ['I']
  | 0x149 => [Char.ofNat 0x2BC, 'N']
  | 0x17F => ['S']
  | 0x1F0 => ['J', Char.ofNat 0x30C]
  | 0x1E96 => ['H', Char.ofNat 0x331]
  | 0x1E97 => ['T', Char.ofNat 0x308]
  | 0x1E98 => ['W', Char.ofNat 0x30A]
  | 0x1E99 => ['Y', Char.ofNat 0x30A]
  | 0x1E9A => ['A', Char.ofNat 0x2BE]
  | 0xFB00 => ['F', 'F']
  | 0xFB01 => ['F', 'I']
  | 0xFB02 => ['F', 'L']
  | 0xFB03 => ['F', 'F', 'I']
  | 0xFB04 => ['F', 'F', 'L']
  | 0xFB05 => ['S', 'T']
  | 0xFB06 => ['S', 'T']
  | _ => [c.toUpper]

/-- Text in Latin capitals. -/
def upper (cs : List Char) : List Char :=
  cs.flatMap latinCapital

def asciiUpper (cs : List Char) : List Char :=
  cs.map Char.toUpper

@[simp] theorem length_asciiUpper (cs : List Char) : (asciiUpper cs).length = cs.length := by
  simp [asciiUpper]

/-- Only letters are changed, and only to letters. -/
theorem eq_of_toUpper {c p : Char} (h : c.toUpper = p) (hp : p.toNat < 65 ∨ 90 < p.toNat) :
    c = p := by
  unfold Char.toUpper at h
  split at h
  · next hc =>
    have hlow : 97 ≤ c.val.toNat := UInt32.le_iff_toNat_le.1 hc.1
    have hhigh : c.val.toNat ≤ 122 := UInt32.le_iff_toNat_le.1 hc.2
    have hshift : ('A'.val - 'a'.val).toNat = 4294967264 := by decide
    subst h
    simp only [Char.toNat, UInt32.toNat_add, hshift] at hp
    omega
  · exact h

theorem upper_append (a b : List Char) : upper (a ++ b) = upper a ++ upper b := by
  simp [upper]

end WorkbookPlan.Text
