import WorkbookPlan.Json.Basic
import WorkbookPlan.Decimal.Scaled

/-! Reading the text of a value. Of a repeated key the last value stays. -/
namespace WorkbookPlan.Json

def isGap (c : Char) : Bool :=
  c == ' ' || c == '\t' || c == '\n' || c == '\r'

def skipGap (cs : List Char) : List Char :=
  cs.dropWhile isGap

def hexValue? (c : Char) : Option Nat :=
  let n := c.toNat
  if 48 ≤ n ∧ n ≤ 57 then some (n - 48)
  else if 97 ≤ n ∧ n ≤ 102 then some (n - 87)
  else if 65 ≤ n ∧ n ≤ 70 then some (n - 55)
  else none

def hexFour? : List Char → Option (Nat × List Char)
  | a :: b :: c :: d :: rest => do
    let a ← hexValue? a
    let b ← hexValue? b
    let c ← hexValue? c
    let d ← hexValue? d
    some (((a * 16 + b) * 16 + c) * 16 + d, rest)
  | _ => none

/-- The character of an escape behind its backslash; two surrogate halves make one character. -/
def readEscape? : List Char → Option (Char × List Char)
  | '\x22' :: r => some ('\x22', r)
  | '\\' :: r => some ('\\', r)
  | '/' :: r => some ('/', r)
  | 'b' :: r => some ('\x08', r)
  | 'f' :: r => some ('\x0c', r)
  | 'n' :: r => some ('\n', r)
  | 'r' :: r => some ('\r', r)
  | 't' :: r => some ('\t', r)
  | 'u' :: r => do
    let (hi, r) ← hexFour? r
    if 0xD800 ≤ hi ∧ hi < 0xDC00 then
      match r with
      | '\\' :: 'u' :: r => do
        let (lo, r) ← hexFour? r
        if 0xDC00 ≤ lo ∧ lo < 0xE000 then
          some (Char.ofNat (0x10000 + (hi - 0xD800) * 0x400 + (lo - 0xDC00)), r)
        else none
      | _ => none
    else if 0xDC00 ≤ hi ∧ hi < 0xE000 then none
    else some (Char.ofNat hi, r)
  | _ => none

/-- The rest of a quoted text, read with the fuel of the text's length. -/
def readQuoted? : Nat → List Char → Option (List Char × List Char)
  | 0, _ => none
  | _ + 1, [] => none
  | _ + 1, '\x22' :: r => some ([], r)
  | fuel + 1, '\\' :: r => do
    let (c, r) ← readEscape? r
    let (cs, r) ← readQuoted? fuel r
    some (c :: cs, r)
  | fuel + 1, c :: r =>
    if c.toNat < 0x20 then none
    else (readQuoted? fuel r).map fun (cs, r) => (c :: cs, r)

structure Numeral where
  negative : Bool
  whole : List Char
  fraction : Option (List Char)
  power : Option Int
  deriving DecidableEq, Repr

def splitSign : List Char → Bool × List Char
  | '-' :: r => (true, r)
  | r => (false, r)

def splitPowerSign : List Char → Bool × List Char
  | '+' :: r => (false, r)
  | r => splitSign r

def readFraction? : List Char → Option (Option (List Char) × List Char)
  | '.' :: r =>
    let ds := r.takeWhile Char.isDigit
    if ds.isEmpty then none else some (some ds, r.dropWhile Char.isDigit)
  | r => some (none, r)

def readPower? : List Char → Option (Option Int × List Char)
  | c :: r =>
    if c = 'e' ∨ c = 'E' then
      let (negative, r) := splitPowerSign r
      let ds := r.takeWhile Char.isDigit
      if ds.isEmpty then none
      else
        let n : Int := Text.digitsValue ds
        some (some (if negative then -n else n), r.dropWhile Char.isDigit)
    else some (none, c :: r)
  | [] => some (none, [])

/-- The parts of a number. Only a single zero may stand in front. -/
def readNumeral? (cs : List Char) : Option (Numeral × List Char) :=
  let (negative, r) := splitSign cs
  let whole := r.takeWhile Char.isDigit
  if whole.isEmpty ∨ (whole.head? = some '0' ∧ 1 < whole.length) then none
  else do
    let (fraction, r) ← readFraction? (r.dropWhile Char.isDigit)
    let (power, r) ← readPower? r
    some (⟨negative, whole, fraction, power⟩, r)

/-- Whole numbers that fit into 64 bits, signed or not, stay whole; any other number is a
floating-point number, minus zero too. -/
def Numeral.value? (n : Numeral) : Option Json :=
  let m := Text.digitsValue n.whole
  if n.fraction.isNone ∧ n.power.isNone ∧ ¬ (n.negative ∧ m = 0)
      ∧ (if n.negative then m ≤ Nat.pow 2 63 else m < Nat.pow 2 64) then
    some (int (if n.negative then -(m : Int) else m))
  else
    (Decimal.Binary64.ofDigits? n.negative n.whole (n.fraction.getD []) (n.power.getD 0)).map float

def readNumber? (cs : List Char) : Option (Json × List Char) := do
  let (n, r) ← readNumeral? cs
  let j ← n.value?
  some (j, r)

/-- How deep lists and objects may stand in one another. -/
def maxDepth : Nat := 127

mutual

/-- A value in which lists and objects may stand up to `depth` deep in one another, read with the
fuel of twice the text's length. -/
def readValue? : Nat → (depth : Nat) → List Char → Option (Json × List Char)
  | 0, _, _ => none
  | fuel + 1, depth, cs =>
    match skipGap cs with
    | 'n' :: 'u' :: 'l' :: 'l' :: r => some (null, r)
    | 't' :: 'r' :: 'u' :: 'e' :: r => some (bool true, r)
    | 'f' :: 'a' :: 'l' :: 's' :: 'e' :: r => some (bool false, r)
    | '\x22' :: r => (readQuoted? fuel r).map fun (s, r) => (str (String.ofList s), r)
    | '[' :: r =>
      match depth, skipGap r with
      | 0, _ => none
      | _ + 1, ']' :: r => some (arr [], r)
      | depth + 1, r => (readItems? fuel depth r).map fun (js, r) => (arr js, r)
    | '\x7b' :: r =>
      match depth, skipGap r with
      | 0, _ => none
      | _ + 1, '\x7d' :: r => some (obj [], r)
      | depth + 1, r => (readFields? fuel depth r).map fun (fs, r) => (object fs, r)
    | r => readNumber? r

def readItems? : Nat → (depth : Nat) → List Char → Option (List Json × List Char)
  | 0, _, _ => none
  | fuel + 1, depth, cs => do
    let (j, r) ← readValue? fuel depth cs
    match skipGap r with
    | ']' :: r => some ([j], r)
    | ',' :: r => do
      let (js, r) ← readItems? fuel depth r
      some (j :: js, r)
    | _ => none

def readFields? : Nat → (depth : Nat) → List Char → Option (List (String × Json) × List Char)
  | 0, _, _ => none
  | fuel + 1, depth, cs => do
    match skipGap cs with
    | '\x22' :: r => do
      let (k, r) ← readQuoted? fuel r
      match skipGap r with
      | ':' :: r => do
        let (j, r) ← readValue? fuel depth r
        match skipGap r with
        | '\x7d' :: r => some ([(String.ofList k, j)], r)
        | ',' :: r => do
          let (fs, r) ← readFields? fuel depth r
          some ((String.ofList k, j) :: fs, r)
        | _ => none
      | _ => none
    | _ => none

end

def read? (s : String) : Option Json := do
  let cs := s.toList
  let (j, r) ← readValue? (2 * cs.length + 2) maxDepth cs
  if (skipGap r).isEmpty then some j else none

end WorkbookPlan.Json
