import WorkbookPlan.Decimal.Binary64

/-! The shortest decimal text of a floating-point number that reads back as the same number. -/
namespace WorkbookPlan.Decimal

namespace Binary64

/-- The half-way point below, the magnitude, and the half-way point above, in units of
`2 ^ -1076`. Just above a power of two the gap below is half as wide. -/
def gap (x : Binary64) : Nat × Nat × Nat :=
  let m := x.mantissa
  let unit := Nat.pow 2 x.exponent
  let below := if x.fractionField = 0 ∧ 1 < x.exponentField then unit else 2 * unit
  (4 * m * unit - below, 4 * m * unit, 4 * m * unit + 2 * unit)

/-- Whether `n / d` units lie in the gap, its ends included when the mantissa is even. -/
def inGap (x : Binary64) (n d : Nat) : Bool :=
  let (lo, _, hi) := x.gap
  if x.mantissa % 2 = 0 then lo * d ≤ n && n ≤ hi * d else lo * d < n && n < hi * d

/-- A decimal `digits * 10 ^ (scale - 400)`. -/
structure Digits where
  digits : Nat
  scale : Nat
  deriving DecidableEq, Repr

/-- The multiple of `10 ^ (scale - 400)` nearest to the magnitude among its two neighbours, if it
lies in the gap; of two that are equally near, the even one. -/
def onGrid? (x : Binary64) (scale : Nat) : Option Digits :=
  let (_, v, _) := x.gap
  -- the magnitude is `v / 2 ^ 1076`; a grid step is `num / den` in the same units
  let num := Nat.pow 10 (scale - 400) * Nat.pow 2 1076
  let den := Nat.pow 10 (400 - scale)
  let q := v * den / num
  let r := 2 * (v * den - q * num)
  let near := if r < num ∨ (r = num ∧ q % 2 = 0) then [q, q + 1] else [q + 1, q]
  (near.find? fun k => 0 < k && x.inGap (k * num) den).map (⟨·, scale⟩)

/-- The coarsest grid with a hit, from `10 ^ (scale - 400)` downwards. -/
def shortestFrom (x : Binary64) : Nat → Digits
  | 0 => ⟨0, 400⟩
  | scale + 1 => (x.onGrid? (scale + 1)).getD (x.shortestFrom scale)

def shortest (x : Binary64) : Digits :=
  x.shortestFrom 710

end Binary64

/-- How a number is laid out: positional while the point stands at most `maxPoint` digits behind
the first digit and less than `minPoint` zeros before it, else with an exponent. -/
structure Layout where
  maxPoint : Nat
  minPoint : Nat

def Layout.plain : Layout := ⟨16, 5⟩

namespace Layout

def zeros (n : Nat) : List Char :=
  List.replicate n '0'

/-- Lay out the digits `ds * 10 ^ (scale - 400)`; a number without a fraction keeps one zero behind
the point. An exponent always has a sign. -/
def text (l : Layout) (ds : List Char) (scale : Nat) : List Char :=
  let n := ds.length
  -- `point` is the place of the point in the digits, shifted by 400
  let point := n + scale
  if 400 ≤ scale ∧ point ≤ 400 + l.maxPoint then ds ++ zeros (scale - 400) ++ ['.', '0']
  else if 400 < point ∧ point ≤ 400 + l.maxPoint then
    ds.take (point - 400) ++ '.' :: ds.drop (point - 400)
  else if 400 < point + l.minPoint ∧ point ≤ 400 then
    '0' :: '.' :: zeros (400 - point) ++ ds
  else
    let power := if point < 401 then '-' :: (toString (401 - point)).toList
      else '+' :: (toString (point - 401)).toList
    let tail := if n = 1 then [] else '.' :: ds.drop 1
    ds.take 1 ++ tail ++ 'e' :: power

end Layout

def Binary64.text (x : Binary64) : List Char :=
  let sign := if x.isNegative then ['-'] else []
  if x.mantissa = 0 then sign ++ ['0', '.', '0']
  else
    let d := x.shortest
    sign ++ Layout.plain.text (toString d.digits).toList d.scale

end WorkbookPlan.Decimal
