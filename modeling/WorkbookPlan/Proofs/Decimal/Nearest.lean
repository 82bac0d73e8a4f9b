import Mathlib.Tactic.Linarith
import Mathlib.Tactic.Ring
import WorkbookPlan.Decimal.Scaled
import WorkbookPlan.Decimal.Shortest

/-! Rounding to the nearest number. A quotient that lies in the gap of a number is rounded to that
number. -/
namespace WorkbookPlan.Decimal.Binary64

section RoundDiv

variable {num den q : Nat}

/-- The quotient is at most half a unit away from the integer, and less than that if it is odd. -/
structure Rounds (num den q : Nat) : Prop where
  low : 2 * (den * q) ≤ 2 * num + den
  high : 2 * num ≤ 2 * (den * q) + den
  odd : q % 2 = 1 → 2 * (den * q) < 2 * num + den ∧ 2 * num < 2 * (den * q) + den

theorem roundDiv_eq (hden : 0 < den) (h : Rounds num den q) : roundDiv num den = q := by
  obtain ⟨hlow, hhigh, hodd⟩ := h
  have hnum : den * (num / den) + num % den = num := Nat.div_add_mod num den
  have hrem : num % den < den := Nat.mod_lt num hden
  unfold roundDiv
  generalize num / den = t at *
  generalize num % den = r at *
  have hle : t ≤ q := by
    by_contra hlt
    have hmul : den * (q + 1) ≤ den * t := Nat.mul_le_mul_left den (by omega)
    rw [Nat.mul_add, Nat.mul_one] at hmul
    omega
  have hge : q ≤ t + 1 := by
    by_contra hlt
    have hmul : den * (t + 2) ≤ den * q := Nat.mul_le_mul_left den (by omega)
    rw [Nat.mul_add] at hmul
    omega
  rcases Nat.lt_or_ge t q with hlt | heq
  · obtain rfl : q = t + 1 := by omega
    rw [Nat.mul_add, Nat.mul_one] at hlow hhigh hodd
    simp only
    split
    · omega
    · split
      · rfl
      · omega
  · obtain rfl : q = t := by omega
    simp only
    split
    · rfl
    · split
      · omega
      · omega

theorem roundDiv_mul_left {c : Nat} (hc : 0 < c) (num den : Nat) :
    roundDiv (c * num) (c * den) = roundDiv num den := by
  have hlt : ∀ a b : Nat, c * a < c * b ↔ a < b := fun a b => Nat.mul_lt_mul_left hc
  have hdouble : 2 * (c * (num % den)) = c * (2 * (num % den)) := by ring
  unfold roundDiv
  rw [Nat.mul_div_mul_left _ _ hc, Nat.mul_mod_mul_left]
  simp only [hdouble, hlt]

/-- Only the quotient counts. -/
theorem nearestMagnitude?_mul_left {c : Nat} (hc : 0 < c) (num den : Nat) :
    nearestMagnitude? (c * num) (c * den) = nearestMagnitude? num den := by
  unfold nearestMagnitude?
  simp only [Nat.mul_assoc, Nat.mul_div_mul_left _ _ hc, roundDiv_mul_left hc]

theorem nearest?_mul_left {c : Nat} (hc : 0 < c) (negative : Bool) (num den : Nat) :
    nearest? negative (c * num) (c * den) = nearest? negative num den := by
  rw [nearest?, nearestMagnitude?_mul_left hc, nearest?]

end RoundDiv

section Words

variable (x : Binary64)

def magnitude : Nat :=
  x.exponent * Nat.pow 2 52 + x.mantissa

theorem magnitude_eq : x.magnitude = x.bits % Nat.pow 2 63 := by
  have h52 : Nat.pow 2 52 = 4503599627370496 := rfl
  have h11 : Nat.pow 2 11 = 2048 := rfl
  have h63 : Nat.pow 2 63 = 9223372036854775808 := rfl
  unfold magnitude exponent mantissa exponentField fractionField
  rw [h52, h11, h63]
  split <;> omega

theorem ofMagnitude_magnitude : ofMagnitude x.isNegative x.magnitude = x := by
  have h63 : Nat.pow 2 63 = 9223372036854775808 := rfl
  have hbits : (if x.isNegative then Nat.pow 2 63 + x.magnitude else x.magnitude) = x.bits := by
    have hlt : x.bits < 18446744073709551616 := x.word.toNat_lt
    rw [magnitude_eq]
    unfold isNegative
    rw [h63]
    simp only [decide_eq_true_eq]
    split <;> omega
  rw [ofMagnitude, hbits]
  exact congrArg Binary64.mk (UInt64.ofNat_toNat)

/-- Below the normal numbers the exponent is zero, and at the start of a binade the gap is narrow. -/
structure Shape : Prop where
  exponent_le : x.exponent ≤ 2045
  mantissa_lt : x.mantissa < 2 ^ 53
  normal : x.exponent = 0 ∨ 2 ^ 52 ≤ x.mantissa
  narrow : (x.fractionField = 0 ∧ 1 < x.exponentField) ↔ (x.mantissa = 2 ^ 52 ∧ 0 < x.exponent)

variable {x}

theorem shape (h : x.isFinite = true) : x.Shape := by
  have h52 : Nat.pow 2 52 = 2 ^ 52 := rfl
  have hfinite : x.exponentField < 2047 := by simpa [isFinite] using h
  have hfraction : x.fractionField < 2 ^ 52 := Nat.mod_lt _ (by decide)
  exact {
    exponent_le := by
      unfold exponent
      omega
    mantissa_lt := by
      unfold mantissa
      rw [h52]
      split <;> omega
    normal := by
      unfold exponent mantissa
      rw [h52]
      split <;> omega
    narrow := by
      unfold exponent mantissa
      rw [h52]
      split <;> omega }

end Words

section Gap

variable {x : Binary64} {n d : Nat}

/-- What it means to lie in the gap, in steps of the last place: `n / d` is `n` of `d * 2 ^ exponent`
steps. -/
structure WithinGap (x : Binary64) (n step : Nat) : Prop where
  low : 4 * (x.mantissa * step) ≤ n + 2 * step
  high : n ≤ 4 * (x.mantissa * step) + 2 * step
  odd : x.mantissa % 2 = 1 →
    4 * (x.mantissa * step) < n + 2 * step ∧ n < 4 * (x.mantissa * step) + 2 * step
  narrow : x.fractionField = 0 ∧ 1 < x.exponentField → 4 * (x.mantissa * step) ≤ n + step

theorem withinGap (h : x.inGap n d = true) : x.WithinGap n (d * 2 ^ x.exponent) := by
  have hvalue : 4 * x.mantissa * 2 ^ x.exponent * d = 4 * (x.mantissa * (d * 2 ^ x.exponent)) := by
    ring
  have hstep : 2 ^ x.exponent * d = d * 2 ^ x.exponent := by ring
  have hsteps : 2 * 2 ^ x.exponent * d = 2 * (d * 2 ^ x.exponent) := by ring
  have hbelow : (if x.fractionField = 0 ∧ 1 < x.exponentField then 2 ^ x.exponent
        else 2 * 2 ^ x.exponent) * d =
      if x.fractionField = 0 ∧ 1 < x.exponentField then d * 2 ^ x.exponent
        else 2 * (d * 2 ^ x.exponent) := by
    rw [ite_mul, hstep, hsteps]
  unfold inGap gap at h
  simp only [Nat.pow_eq, Nat.sub_mul, Nat.add_mul, hvalue, hsteps, hbelow] at h
  by_cases heven : x.mantissa % 2 = 0
  · by_cases hnarrow : x.fractionField = 0 ∧ 1 < x.exponentField
    · rw [if_pos heven, if_pos hnarrow, Bool.and_eq_true, decide_eq_true_eq, decide_eq_true_eq] at h
      refine ⟨?_, ?_, ?_, ?_⟩ <;> omega
    · rw [if_pos heven, if_neg hnarrow, Bool.and_eq_true, decide_eq_true_eq, decide_eq_true_eq] at h
      refine ⟨?_, ?_, ?_, ?_⟩ <;> omega
  · by_cases hnarrow : x.fractionField = 0 ∧ 1 < x.exponentField
    · rw [if_neg heven, if_pos hnarrow, Bool.and_eq_true, decide_eq_true_eq, decide_eq_true_eq] at h
      refine ⟨?_, ?_, ?_, ?_⟩ <;> omega
    · rw [if_neg heven, if_neg hnarrow, Bool.and_eq_true, decide_eq_true_eq, decide_eq_true_eq] at h
      refine ⟨?_, ?_, ?_, ?_⟩ <;> omega

end Gap

section Nearest

variable {x : Binary64} {n d k : Nat}

theorem log2_sub_eq {quotient : Nat} (hlow : 2 ^ (52 + k) ≤ quotient)
    (hhigh : quotient < 2 ^ (53 + k)) : Nat.log2 quotient - 52 = k := by
  have hne : quotient ≠ 0 := by
    have := Nat.two_pow_pos (52 + k)
    omega
  have hle : 52 + k ≤ quotient.log2 := (Nat.le_log2 hne).2 hlow
  have hlt : quotient.log2 < 53 + k := (Nat.log2_lt hne).2 hhigh
  omega

theorem scaled_div {e f : Nat} (hf : f = e + 2) (n d : Nat) :
    n * Nat.pow 2 e / (d * Nat.pow 2 f) = n / (4 * d) := by
  have hden : d * 2 ^ (e + 2) = 2 ^ e * (4 * d) := by
    rw [Nat.pow_add]
    ring
  rw [Nat.pow_eq, Nat.pow_eq, hf, hden, Nat.mul_comm n,
    Nat.mul_div_mul_left _ _ (Nat.two_pow_pos e)]

theorem roundDiv_scaled {e f : Nat} (hf : f = e + 2) (n d : Nat) :
    roundDiv (n * Nat.pow 2 e) (d * Nat.pow 2 f * Nat.pow 2 k) = roundDiv n (4 * d * 2 ^ k) := by
  have hden : d * 2 ^ (e + 2) * 2 ^ k = 2 ^ e * (4 * d * 2 ^ k) := by
    rw [Nat.pow_add]
    ring
  rw [Nat.pow_eq, Nat.pow_eq, Nat.pow_eq, hf, hden, Nat.mul_comm n,
    roundDiv_mul_left (Nat.two_pow_pos e)]

/-- The quotient in units of the least positive number. -/
theorem nearestMagnitude?_of_rounds {m : Nat} (hd : 0 < d)
    (hk : Nat.log2 (n / (4 * d)) - 52 = k) (h : Rounds n (4 * d * 2 ^ k) m) :
    nearestMagnitude? n (d * Nat.pow 2 1076) =
      if (if m < 2 ^ 52 then m else k * 2 ^ 52 + m) < 2047 * 2 ^ 52 then
        some (if m < 2 ^ 52 then m else k * 2 ^ 52 + m)
      else none := by
  have hpos : 0 < 4 * d * 2 ^ k := by positivity
  have hunits : 1076 = 1074 + 2 := rfl
  unfold nearestMagnitude?
  -- as literals the two powers would be computed
  generalize 1074 = e at hunits ⊢
  generalize 1076 = f at hunits ⊢
  dsimp only
  rw [scaled_div hunits, hk, roundDiv_scaled hunits, roundDiv_eq hpos h]
  rfl

theorem binade_mul (d j : Nat) : 2 ^ (52 + j) * (4 * d) = 4 * (2 ^ 52 * (d * 2 ^ j)) := by
  rw [Nat.pow_add]
  ring

/-- From its binade on, the quotient has the exponent of the number. -/
theorem log2_quotient {m : Nat} (hd : 0 < d) (hm : m < 2 ^ 53)
    (hhigh : n ≤ 4 * (m * (d * 2 ^ k)) + 2 * (d * 2 ^ k))
    (hbinade : k = 0 ∨ 4 * (2 ^ 52 * (d * 2 ^ k)) ≤ n) : Nat.log2 (n / (4 * d)) - 52 = k := by
  have hfour : 0 < 4 * d := by positivity
  have hstep : 0 < d * 2 ^ k := by positivity
  have hquotient : n / (4 * d) < 2 ^ (53 + k) := by
    have hle : m * (d * 2 ^ k) ≤ (2 ^ 53 - 1) * (d * 2 ^ k) := Nat.mul_le_mul_right _ (by omega)
    have hpower : 4 * d * 2 ^ (53 + k) = 4 * (2 ^ 53 * (d * 2 ^ k)) := by
      rw [Nat.pow_add]
      ring
    rw [Nat.sub_mul, Nat.one_mul] at hle
    exact Nat.div_lt_of_lt_mul (by omega)
  rcases hbinade with rfl | hle
  · rcases Nat.eq_zero_or_pos (n / (4 * d)) with hzero | hpos
    · rw [hzero]
      rfl
    · have hlog : Nat.log2 (n / (4 * d)) < 53 := (Nat.log2_lt hpos.ne').2 hquotient
      omega
  · rw [← binade_mul] at hle
    exact log2_sub_eq ((Nat.le_div_iff_mul_le hfour).2 hle) hquotient

/-- In the half step below a power of two the last place is half as large, and the quotient is rounded
up to that power. -/
theorem nearestMagnitude?_of_below {j : Nat} (hd : 0 < d) (hj : j < 2045)
    (hlow : 4 * (2 ^ 52 * (d * 2 ^ (j + 1))) ≤ n + d * 2 ^ (j + 1))
    (hhigh : n < 4 * (2 ^ 52 * (d * 2 ^ (j + 1)))) :
    nearestMagnitude? n (d * Nat.pow 2 1076) = some ((j + 1) * 2 ^ 52 + 2 ^ 52) := by
  have hfour : 0 < 4 * d := by positivity
  have hdouble : d * 2 ^ (j + 1) = 2 * (d * 2 ^ j) := by ring
  have hquotient : n / (4 * d) < 2 ^ (53 + j) := by
    rw [← binade_mul, Nat.mul_comm] at hhigh
    have hpower : 52 + (j + 1) = 53 + j := by omega
    rw [hpower] at hhigh
    exact Nat.div_lt_of_lt_mul hhigh
  rw [hdouble] at hlow hhigh
  have hk : Nat.log2 (n / (4 * d)) - 52 = j := by
    refine log2_sub_eq ((Nat.le_div_iff_mul_le hfour).2 ?_) hquotient
    rw [binade_mul]
    omega
  have hup : Rounds n (4 * d * 2 ^ j) (2 ^ 53) := by
    rw [Nat.mul_assoc]
    refine ⟨?_, ?_, ?_⟩ <;> omega
  have hword : (if (2 ^ 53 : Nat) < 2 ^ 52 then 2 ^ 53 else j * 2 ^ 52 + 2 ^ 53) =
      (j + 1) * 2 ^ 52 + 2 ^ 52 := by
    rw [if_neg (by decide)]
    ring
  rw [nearestMagnitude?_of_rounds hd hk hup, hword, if_pos (by omega)]

/-- A quotient in the gap of a finite number is rounded to that number. -/
theorem nearestMagnitude?_of_inGap (hx : x.isFinite = true) (hd : 0 < d)
    (h : x.inGap n d = true) : nearestMagnitude? n (d * Nat.pow 2 1076) = some x.magnitude := by
  obtain ⟨hexponent, hmantissa, hnormal, hnarrow⟩ := shape hx
  obtain ⟨hlow, hhigh, hodd, hlowNarrow⟩ := withinGap h
  rw [hnarrow] at hlowNarrow
  have hmagnitude : x.magnitude = x.exponent * 2 ^ 52 + x.mantissa := rfl
  generalize x.exponent = k at *
  generalize x.mantissa = m at *
  rw [hmagnitude]
  by_cases hbinade : k = 0 ∨ 4 * (2 ^ 52 * (d * 2 ^ k)) ≤ n
  · have hrounds : Rounds n (4 * d * 2 ^ k) m := by
      have htimes : 4 * d * 2 ^ k * m = 4 * (m * (d * 2 ^ k)) := by ring
      have hassoc : 4 * d * 2 ^ k = 4 * (d * 2 ^ k) := Nat.mul_assoc 4 d (2 ^ k)
      refine ⟨?_, ?_, ?_⟩ <;> omega
    have hk : Nat.log2 (n / (4 * d)) - 52 = k := log2_quotient hd hmantissa hhigh hbinade
    have hword : (if m < 2 ^ 52 then m else k * 2 ^ 52 + m) = k * 2 ^ 52 + m := by
      split <;> omega
    rw [nearestMagnitude?_of_rounds hd hk hrounds, hword, if_pos (by omega)]
  · obtain ⟨hpos, hlt⟩ := not_or.1 hbinade
    have hfirst : m = 2 ^ 52 := by
      have hge : 2 ^ 52 ≤ m := hnormal.resolve_left hpos
      by_contra hne
      have hmul : (2 ^ 52 + 1) * (d * 2 ^ k) ≤ m * (d * 2 ^ k) :=
        Nat.mul_le_mul_right _ (by omega)
      rw [Nat.add_mul] at hmul
      omega
    subst hfirst
    have hnear := hlowNarrow ⟨rfl, Nat.pos_of_ne_zero hpos⟩
    obtain ⟨j, rfl⟩ : ∃ j, k = j + 1 := Nat.exists_eq_succ_of_ne_zero hpos
    exact nearestMagnitude?_of_below hd (by omega) hnear (Nat.lt_of_not_le hlt)

theorem nearest?_of_inGap (hx : x.isFinite = true) (hd : 0 < d) (h : x.inGap n d = true) :
    nearest? x.isNegative n (d * Nat.pow 2 1076) = some x := by
  rw [nearest?, nearestMagnitude?_of_inGap hx hd h, Option.map_some, ofMagnitude_magnitude]

theorem inGap_self (x : Binary64) : x.inGap (4 * x.units) 1 = true := by
  have hunit : 0 < 2 ^ x.exponent := Nat.two_pow_pos x.exponent
  have hvalue : 4 * x.mantissa * 2 ^ x.exponent = 4 * (x.mantissa * 2 ^ x.exponent) :=
    Nat.mul_assoc 4 _ _
  unfold inGap gap units
  simp only [Nat.pow_eq, hvalue, Nat.mul_one]
  split
  · simp
  · next hodd =>
    have hpos : 0 < x.mantissa * 2 ^ x.exponent := Nat.mul_pos (by omega) hunit
    split <;> simp <;> omega

/-- Each finite number is the one nearest to itself. -/
theorem nearest?_self (hx : x.isFinite = true) :
    nearest? x.isNegative x.units (Nat.pow 2 1074) = some x := by
  have hunits : 1 * Nat.pow 2 1076 = 4 * Nat.pow 2 1074 := by decide +kernel
  have hself := nearest?_of_inGap hx Nat.one_pos (inGap_self x)
  have hfour := nearest?_mul_left (c := 4) (by decide) x.isNegative x.units (Nat.pow 2 1074)
  rw [hunits, hfour] at hself
  exact hself

end Nearest

end WorkbookPlan.Decimal.Binary64
