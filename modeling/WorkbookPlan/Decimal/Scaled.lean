import WorkbookPlan.Decimal.Binary64
import WorkbookPlan.Text.Basic

/-! Decimal digits and a power of ten read as a floating-point number: the digits are gathered in a
word of 64 bits, and the number nearest to that word is scaled by the power. Both steps round, so
the result need not be the nearest number to what is written. -/
namespace WorkbookPlan.Decimal

/-- Gather digits behind those of a word, as long as 64 bits hold the value. The digits from the
first one on for which there is no room are left over. -/
def gather (word : Nat) : List Char → Nat × List Char
  | [] => (word, [])
  | d :: ds =>
    if word * 10 + Text.digit d < UInt64.size then gather (word * 10 + Text.digit d) ds else (word, d :: ds)

namespace Binary64

/-- The magnitude in units of `2 ^ -1074`. -/
def units (x : Binary64) : Nat :=
  x.mantissa * Nat.pow 2 x.exponent

def mul? (x y : Binary64) : Option Binary64 :=
  nearest? (x.isNegative != y.isNegative) (x.units * y.units) (Nat.pow 2 2148)

def div? (x y : Binary64) : Option Binary64 :=
  if y.units = 0 then none else nearest? (x.isNegative != y.isNegative) x.units y.units

/-- The largest power of ten that is finite. -/
def maxTen : Nat := 308

def tenTo (k : Nat) : Binary64 :=
  (nearest? false (Nat.pow 10 k) 1).getD default

/-- Divide by a power of ten, in steps that are finite. -/
def overTenTo? (x : Binary64) (k : Nat) : Option Binary64 :=
  if _h : k ≤ maxTen then x.div? (tenTo k)
  else if x.units = 0 then some x
  else (x.div? (tenTo maxTen)).bind (·.overTenTo? (k - maxTen))
termination_by k
decreasing_by
  simp only [maxTen] at *
  omega

/-- Multiply by a power of ten. What is too large is no number. -/
def timesTenTo? (x : Binary64) (k : Nat) : Option Binary64 :=
  if k ≤ maxTen then x.mul? (tenTo k)
  else if x.units = 0 then some x
  else none

/-- The number of a sign, the digits before and behind the point, and a power of ten. Digits for
which there is no room move the point where they stand before it, and are dropped behind it. -/
def ofDigits? (negative : Bool) (whole fraction : List Char) (power : Int) : Option Binary64 := do
  let (word, moved) := gather 0 whole
  let (word, dropped) := gather word fraction
  let x ← nearest? negative word 1
  let power := power + moved.length - (fraction.length - dropped.length : Nat)
  if power < 0 then x.overTenTo? power.natAbs else x.timesTenTo? power.natAbs

end Binary64

end WorkbookPlan.Decimal
