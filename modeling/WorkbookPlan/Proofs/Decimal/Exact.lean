import WorkbookPlan.Proofs.Decimal.Nearest
import WorkbookPlan.Proofs.Text.Digits

/-! A number that is written with at most fifteen digits is read as the number nearest to it: the word
that gathers the digits and the power of ten are exact, so that only the quotient is rounded. -/
namespace WorkbookPlan.Decimal

open Text

section Digits

variable {ds : List Char} {word : Nat}

theorem gather_eq (hds : ∀ c ∈ ds, c.isDigit = true)
    (h : (word + 1) * 10 ^ ds.length ≤ UInt64.size) :
    gather word ds = (digitsBehind word ds, []) := by
  induction ds generalizing word with
  | nil => rfl
  | cons c ds ih =>
    obtain ⟨hc, hds⟩ := List.forall_mem_cons.1 hds
    have hdigit : digit c < 10 := digit_lt hc
    have hpower : 0 < 10 ^ ds.length := by positivity
    have hnext : (word * 10 + digit c + 1) * 10 ^ ds.length ≤ UInt64.size := by
      refine Nat.le_trans (Nat.mul_le_mul_right _ (by omega : _ ≤ (word + 1) * 10)) ?_
      rw [List.length_cons, Nat.pow_succ] at h
      rwa [Nat.mul_assoc, Nat.mul_comm 10]
    have hroom : word * 10 + digit c < UInt64.size := by
      have := Nat.le_trans (Nat.le_mul_of_pos_right (word * 10 + digit c + 1) hpower) hnext
      omega
    rw [gather, if_pos hroom, ih hds hnext]
    rfl

end Digits

namespace Binary64

section Whole

variable {whole : Nat}

theorem bits_ofMagnitude {n : Nat} (h : n < 2 ^ 63) (negative : Bool) :
    (ofMagnitude negative n).bits = if negative then 2 ^ 63 + n else n := by
  have hlt : (if negative then Nat.pow 2 63 + n else n) < 2 ^ 64 := by
    have h63 : Nat.pow 2 63 = 2 ^ 63 := rfl
    rw [h63]
    split <;> omega
  exact (UInt64.toNat_ofNat').trans (Nat.mod_eq_of_lt hlt)

/-- The number of a normal mantissa and an exponent. -/
theorem exists_of_mantissa {m k : Nat} (hlow : 2 ^ 52 ≤ m) (hhigh : m < 2 ^ 53) (hk : k ≤ 2045)
    (negative : Bool) : ∃ x : Binary64, x.isFinite = true ∧ x.isNegative = negative ∧
      x.units = m * Nat.pow 2 k := by
  have h52 : Nat.pow 2 52 = 4503599627370496 := rfl
  have h11 : Nat.pow 2 11 = 2048 := rfl
  have h63 : Nat.pow 2 63 = 9223372036854775808 := rfl
  have hword : k * 2 ^ 52 + m < 2 ^ 63 := by omega
  have hbits := bits_ofMagnitude hword negative
  have hfield : (ofMagnitude negative (k * 2 ^ 52 + m)).exponentField = k + 1 := by
    unfold exponentField
    rw [hbits, h52, h11]
    split <;> omega
  have hfraction : (ofMagnitude negative (k * 2 ^ 52 + m)).fractionField = m - 2 ^ 52 := by
    unfold fractionField
    rw [hbits, h52]
    split <;> omega
  refine ⟨ofMagnitude negative (k * 2 ^ 52 + m), ?_, ?_, ?_⟩
  · unfold isFinite
    rw [hfield]
    exact decide_eq_true (by omega)
  · unfold isNegative
    rw [hbits, h63]
    cases negative with
    | false =>
      rw [if_neg Bool.false_ne_true]
      exact decide_eq_false (by omega)
    | true =>
      rw [if_pos rfl]
      exact decide_eq_true (by omega)
  · unfold units mantissa exponent
    rw [hfield, hfraction, if_neg (Nat.succ_ne_zero k), h52]
    have hmantissa : 4503599627370496 + (m - 2 ^ 52) = m := by omega
    rw [hmantissa, Nat.add_sub_cancel]

/-- A whole number of at most 53 bits is a number of the format. -/
theorem exists_units (h : whole < 2 ^ 53) (negative : Bool) :
    ∃ x : Binary64, x.isFinite = true ∧ x.isNegative = negative ∧
      x.units = whole * Nat.pow 2 1074 := by
  rcases Nat.eq_zero_or_pos whole with rfl | hpos
  · refine ⟨ofMagnitude negative 0, ?_, ?_, ?_⟩
    · cases negative <;> decide
    · cases negative <;> decide
    · have hzero : (ofMagnitude negative 0).units = 0 := by cases negative <;> decide
      exact hzero.trans (Nat.zero_mul (Nat.pow 2 1074)).symm
  · have hlog : whole.log2 < 53 := (Nat.log2_lt hpos.ne').2 h
    have hlow : 2 ^ whole.log2 ≤ whole := Nat.log2_self_le hpos.ne'
    have hhigh : whole < 2 ^ (whole.log2 + 1) := Nat.lt_log2_self
    generalize whole.log2 = k at *
    have hfill : ∀ e, 0 < 2 ^ e := Nat.two_pow_pos
    have hmantissa : 2 ^ 52 ≤ whole * 2 ^ (52 - k) := by
      have hsum : k + (52 - k) = 52 := by omega
      calc 2 ^ 52 = 2 ^ k * 2 ^ (52 - k) := by rw [← Nat.pow_add, hsum]
        _ ≤ whole * 2 ^ (52 - k) := Nat.mul_le_mul_right _ hlow
    have hmantissa' : whole * 2 ^ (52 - k) < 2 ^ 53 := by
      have hsum : k + 1 + (52 - k) = 53 := by omega
      calc whole * 2 ^ (52 - k) < 2 ^ (k + 1) * 2 ^ (52 - k) :=
            Nat.mul_lt_mul_of_pos_right hhigh (hfill _)
        _ = 2 ^ 53 := by rw [← Nat.pow_add, hsum]
    obtain ⟨x, hfinite, hnegative, hunits⟩ :=
      exists_of_mantissa hmantissa hmantissa' (by omega : 1022 + k ≤ 2045) negative
    refine ⟨x, hfinite, hnegative, ?_⟩
    have hsum : 52 - k + (1022 + k) = 1074 := by omega
    rw [hunits, ← hsum, Nat.pow_eq, Nat.pow_eq, Nat.pow_add _ (52 - k), Nat.mul_assoc]

theorem exists_nearest?_whole (h : whole < 2 ^ 53) (negative : Bool) :
    ∃ x : Binary64, nearest? negative whole 1 = some x ∧ x.isNegative = negative ∧
      x.units = whole * Nat.pow 2 1074 := by
  obtain ⟨x, hfinite, rfl, hunits⟩ := exists_units h negative
  refine ⟨x, ?_, rfl, hunits⟩
  have hself := nearest?_self hfinite
  have hunit : 0 < Nat.pow 2 1074 := by decide +kernel
  rw [hunits] at hself
  generalize Nat.pow 2 1074 = unit at hself hunit
  rw [Nat.mul_comm whole] at hself
  have hone := nearest?_mul_left hunit x.isNegative whole 1
  rw [Nat.mul_one] at hone
  rw [← hone]
  exact hself

end Whole

section Reading

variable {whole fraction : List Char}

theorem tenTo_spec {k : Nat} (hk : k ≤ 15) :
    (tenTo k).isNegative = false ∧ (tenTo k).units = 10 ^ k * Nat.pow 2 1074 := by
  have hlt : Nat.pow 10 k < 2 ^ 53 := by
    have hle : 10 ^ k ≤ 10 ^ 15 := Nat.pow_le_pow_right (by decide) hk
    rw [Nat.pow_eq]
    omega
  obtain ⟨x, hx, hsign, hunits⟩ := exists_nearest?_whole hlt false
  have hten : tenTo k = x := by
    rw [tenTo, hx]
    rfl
  rw [hten]
  exact ⟨hsign, hunits⟩

/-- Only the quotient by a power of ten is rounded. -/
theorem overTenTo?_eq_nearest? {x : Binary64} {word k : Nat}
    (hunits : x.units = word * Nat.pow 2 1074) (hk : k ≤ 15) :
    x.overTenTo? k = nearest? x.isNegative word (10 ^ k) := by
  obtain ⟨htenSign, htenUnits⟩ := tenTo_spec hk
  have hunit : 0 < Nat.pow 2 1074 := by decide +kernel
  have hten : 0 < 10 ^ k := by positivity
  rw [overTenTo?, dif_pos (Nat.le_trans hk (by decide)), div?, htenUnits, htenSign, Bool.bne_false,
    hunits]
  generalize Nat.pow 2 1074 = unit at hunit
  rw [if_neg (Nat.mul_pos hten hunit).ne', Nat.mul_comm _ unit, Nat.mul_comm _ unit,
    nearest?_mul_left hunit]

/-- Up to fifteen digits are read as the number nearest to what is written. -/
theorem ofDigits?_eq_nearest? (hwhole : ∀ c ∈ whole, c.isDigit = true)
    (hfraction : ∀ c ∈ fraction, c.isDigit = true) (hne : fraction ≠ [])
    (hlen : whole.length + fraction.length ≤ 15) (negative : Bool) :
    ofDigits? negative whole fraction 0 =
      nearest? negative (digitsValue (whole ++ fraction)) (10 ^ fraction.length) := by
  have hpower : 10 ^ whole.length * 10 ^ fraction.length ≤ 10 ^ 15 := by
    rw [← Nat.pow_add]
    exact Nat.pow_le_pow_right (by decide) hlen
  have hsize : UInt64.size = 18446744073709551616 := rfl
  have hfirst : gather 0 whole = (digitsValue whole, []) := by
    have hone : 10 ^ whole.length ≤ 10 ^ whole.length * 10 ^ fraction.length :=
      Nat.le_mul_of_pos_right _ (by positivity)
    exact gather_eq hwhole (by omega)
  have hvalue : digitsBehind (digitsValue whole) fraction = digitsValue (whole ++ fraction) :=
    (digitsBehind_append 0 whole fraction).symm
  have hlt : digitsValue whole < (0 + 1) * 10 ^ whole.length := digitsBehind_lt hwhole
  have hroom : (digitsValue whole + 1) * 10 ^ fraction.length ≤ 10 ^ 15 :=
    Nat.le_trans (Nat.mul_le_mul_right _ (by omega)) hpower
  have hsecond : gather (digitsValue whole) fraction = (digitsValue (whole ++ fraction), []) := by
    rw [gather_eq hfraction (by omega), hvalue]
  have hword : digitsValue (whole ++ fraction) < 2 ^ 53 := by
    rw [← hvalue]
    exact Nat.lt_of_lt_of_le (digitsBehind_lt hfraction) (Nat.le_trans hroom (by decide))
  obtain ⟨x, hx, hsign, hunits⟩ := exists_nearest?_whole hword negative
  have hpos : 0 < fraction.length := List.length_pos_iff.2 hne
  unfold ofDigits?
  rw [hfirst]
  simp only [hsecond, hx]
  have hmoved : (0 : Int) + ([] : List Char).length -
      ((fraction.length - ([] : List Char).length : Nat) : Int) = -(fraction.length : Int) := by
    simp
  rw [hmoved, Option.bind_eq_bind, Option.bind_some, if_pos (by omega), Int.natAbs_neg,
    Int.natAbs_natCast, overTenTo?_eq_nearest? hunits (by omega), hsign]

end Reading

end Binary64

end WorkbookPlan.Decimal
