/-! Binary floating-point words of 64 bits, read exactly and rounded to exactly. -/
namespace WorkbookPlan.Decimal

/-- A floating-point number as its 64-bit word, so that the two zeros differ and equality is
decidable. -/
structure Binary64 where
  word : UInt64
  deriving DecidableEq, Repr, Inhabited

namespace Binary64

def bits (x : Binary64) : Nat :=
  x.word.toNat

def isNegative (x : Binary64) : Bool :=
  Nat.pow 2 63 ≤ x.bits

def exponentField (x : Binary64) : Nat :=
  x.bits / Nat.pow 2 52 % Nat.pow 2 11

def fractionField (x : Binary64) : Nat :=
  x.bits % Nat.pow 2 52

def isFinite (x : Binary64) : Bool :=
  x.exponentField < 2047

/-- The magnitude is `mantissa * 2 ^ (exponent - 1074)`. -/
def mantissa (x : Binary64) : Nat :=
  if x.exponentField = 0 then x.fractionField else Nat.pow 2 52 + x.fractionField

def exponent (x : Binary64) : Nat :=
  x.exponentField - 1

/-- The word of a sign and a magnitude below `2 ^ 63`. -/
def ofMagnitude (negative : Bool) (n : Nat) : Binary64 :=
  ⟨UInt64.ofNat (if negative then Nat.pow 2 63 + n else n)⟩

/-- The quotient to the nearest integer, a half to the even neighbour. -/
def roundDiv (num den : Nat) : Nat :=
  let q := num / den
  let r := num % den
  if 2 * r < den then q
  else if den < 2 * r then q + 1
  else q + q % 2

/-- The magnitude word nearest to `num / den`, or `none` when that is beyond the largest finite
number. Scaling by `2 ^ 1074` makes the least positive number one unit; a quotient of more than 53
bits is rounded at its 53rd bit, and a carry runs into the exponent field by itself. -/
def nearestMagnitude? (num den : Nat) : Option Nat :=
  let scaled := num * Nat.pow 2 1074
  let shift := Nat.log2 (scaled / den) - 52
  let m := roundDiv scaled (den * Nat.pow 2 shift)
  let magnitude := if m < Nat.pow 2 52 then m else shift * Nat.pow 2 52 + m
  if magnitude < 2047 * Nat.pow 2 52 then some magnitude else none

def nearest? (negative : Bool) (num den : Nat) : Option Binary64 :=
  (nearestMagnitude? num den).map (ofMagnitude negative)

/-- The number nearest to an integer that fits into a 64-bit word; one so small always has a
finite neighbour. -/
def ofInt (i : Int) : Binary64 :=
  (nearest? (i < 0) i.natAbs 1).getD default

end Binary64

end WorkbookPlan.Decimal
