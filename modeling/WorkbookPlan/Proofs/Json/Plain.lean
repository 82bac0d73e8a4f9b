import WorkbookPlan.Proofs.Decimal.Exact
import WorkbookPlan.Proofs.Decimal.Shortest
import WorkbookPlan.Proofs.Json.Text

/-! Numbers that are written with at most fifteen digits and without an exponent are read back. -/
namespace WorkbookPlan

namespace Decimal

open Text

/-- Digits around a point, without a needless zero in front. -/
structure Plain (text whole fraction : List Char) : Prop where
  text_eq : text = whole ++ '.' :: fraction
  whole_digits : ∀ c ∈ whole, c.isDigit = true
  fraction_digits : ∀ c ∈ fraction, c.isDigit = true
  whole_ne : whole ≠ []
  fraction_ne : fraction ≠ []
  lead : whole.head? = some '0' → whole.length = 1

theorem digitsValue_append (ds ds' : List Char) :
    digitsValue (ds ++ ds') = digitsBehind (digitsValue ds) ds' :=
  digitsBehind_append 0 ds ds'

theorem digitsBehind_zeros (word n : Nat) :
    digitsBehind word (Layout.zeros n) = word * 10 ^ n := by
  induction n generalizing word with
  | zero => exact (Nat.mul_one word).symm
  | succ n ih =>
    show digitsBehind (word * 10 + 0) (Layout.zeros n) = _
    rw [ih, Nat.pow_succ]
    ring

theorem isDigit_of_mem_zeros {n : Nat} : ∀ c ∈ Layout.zeros n, c.isDigit = true := by
  intro c hc
  rw [List.eq_of_mem_replicate hc]
  rfl

section Layout

variable {ds : List Char} {scale : Nat} (hds : ∀ c ∈ ds, c.isDigit = true) (hne : ds ≠ [])

include hds hne

theorem plain_whole (hlead : ds.head? ≠ some '0') (n : Nat) :
    Plain (ds ++ Layout.zeros n ++ ['.', '0']) (ds ++ Layout.zeros n) ['0'] := by
  refine ⟨rfl, ?_, List.forall_mem_singleton.2 rfl, by simp [hne], by simp, ?_⟩
  · intro c hc
    rcases List.mem_append.1 hc with hc | hc
    · exact hds c hc
    · exact isDigit_of_mem_zeros c hc
  · intro hzero
    rw [List.head?_append_of_ne_nil _ hne] at hzero
    exact absurd hzero hlead

theorem plain_inside (hlead : ds.head? ≠ some '0') {point : Nat} (hpos : 0 < point)
    (hlt : point < ds.length) :
    Plain (ds.take point ++ '.' :: ds.drop point) (ds.take point) (ds.drop point) := by
  refine ⟨rfl, fun c hc => hds c (List.mem_of_mem_take hc),
    fun c hc => hds c (List.mem_of_mem_drop hc), ?_, ?_, ?_⟩
  · simp [hne, hpos.ne']
  · simpa using hlt
  · intro hzero
    rw [List.head?_take, if_neg hpos.ne'] at hzero
    exact absurd hzero hlead

theorem plain_below (n : Nat) :
    Plain ('0' :: '.' :: Layout.zeros n ++ ds) ['0'] (Layout.zeros n ++ ds) := by
  refine ⟨rfl, List.forall_mem_singleton.2 rfl, ?_, by simp, by simp [hne], fun _ => rfl⟩
  intro c hc
  rcases List.mem_append.1 hc with hc | hc
  · exact isDigit_of_mem_zeros c hc
  · exact hds c hc

/-- Without an exponent, the layout writes the digits around a point, and what is written has the
value of the digits. -/
theorem exists_plain (hlead : ds.head? ≠ some '0') (hplain : 'e' ∉ Layout.plain.text ds scale) :
    ∃ whole fraction, Plain (Layout.plain.text ds scale) whole fraction ∧
      digitsValue (whole ++ fraction) * 10 ^ (400 - scale) =
        digitsValue ds * 10 ^ (scale - 400) * 10 ^ fraction.length := by
  have hlen : 0 < ds.length := List.length_pos_iff.2 hne
  unfold Layout.text Layout.plain at hplain ⊢
  dsimp only at hplain ⊢
  by_cases hlarge : 400 ≤ scale ∧ ds.length + scale ≤ 400 + 16
  · rw [if_pos hlarge]
    refine ⟨_, _, plain_whole hds hne hlead _, ?_⟩
    have hscale : 400 - scale = 0 := by omega
    rw [hscale, digitsValue_append, digitsValue_append, digitsBehind_zeros]
    show (digitsValue ds * 10 ^ (scale - 400) * 10 + 0) * 10 ^ 0 =
      digitsValue ds * 10 ^ (scale - 400) * 10 ^ 1
    rw [Nat.add_zero, Nat.pow_zero, Nat.mul_one, Nat.pow_one]
  by_cases hinside : 400 < ds.length + scale ∧ ds.length + scale ≤ 400 + 16
  · rw [if_neg hlarge, if_pos hinside]
    refine ⟨_, _, plain_inside hds hne hlead (by omega) (by omega), ?_⟩
    have hscale : scale - 400 = 0 := by omega
    have hbehind : ds.length - (ds.length + scale - 400) = 400 - scale := by omega
    rw [List.take_append_drop, List.length_drop, hscale, hbehind, Nat.pow_zero, Nat.mul_one]
  by_cases hbelow : 400 < ds.length + scale + 5 ∧ ds.length + scale ≤ 400
  · rw [if_neg hlarge, if_neg hinside, if_pos hbelow]
    refine ⟨_, _, plain_below hds hne _, ?_⟩
    have hscale : scale - 400 = 0 := by omega
    have hbehind : 400 - (ds.length + scale) + ds.length = 400 - scale := by omega
    have hvalue : digitsValue (['0'] ++ (Layout.zeros (400 - (ds.length + scale)) ++ ds)) =
        digitsValue ds := by
      rw [← List.append_assoc, digitsValue_append, digitsValue_append, digitsBehind_zeros]
      show digitsBehind (0 * 10 ^ _) ds = _
      rw [Nat.zero_mul]
      rfl
    rw [hvalue, List.length_append, Layout.zeros, List.length_replicate, hscale, hbehind,
      Nat.pow_zero, Nat.mul_one]
  · rw [if_neg hlarge, if_neg hinside, if_neg hbelow] at hplain
    simp at hplain

end Layout

namespace Binary64

variable {x : Binary64}

theorem nearest?_congr {num den num' den' : Nat} (hden : 0 < den) (hden' : 0 < den')
    (h : num * den' = num' * den) (negative : Bool) :
    nearest? negative num den = nearest? negative num' den' := by
  rw [← nearest?_mul_left hden', Nat.mul_comm den' num, h, Nat.mul_comm num', Nat.mul_comm den',
    nearest?_mul_left hden]

def sign (x : Binary64) : List Char :=
  if x.isNegative then ['-'] else []

theorem text_of_mantissa_ne_zero (h : x.mantissa ≠ 0) :
    x.text = x.sign ++ Layout.plain.text (Nat.toDigits 10 x.shortest.digits) x.shortest.scale := by
  have hdigits : (toString x.shortest.digits).toList = Nat.toDigits 10 x.shortest.digits :=
    Nat.toList_repr
  unfold Binary64.text
  dsimp only
  rw [if_neg h, hdigits]
  rfl

theorem nearest?_zero (hx : x.isFinite = true) (hzero : x.mantissa = 0) :
    nearest? x.isNegative 0 10 = some x := by
  have hunits : x.units = 0 := by rw [units, hzero, Nat.zero_mul]
  have hpower : ∀ e, 0 < Nat.pow 2 e := Nat.two_pow_pos
  have hunit := hpower 1074
  have hself := nearest?_self hx
  rw [hunits] at hself
  generalize Nat.pow 2 1074 = unit at hself hunit
  have hten : 0 * unit = 0 * 10 := by rw [Nat.zero_mul, Nat.zero_mul]
  exact (nearest?_congr (by decide) hunit hten x.isNegative).trans hself

/-- The text without an exponent: the number is the one nearest to what is written. -/
theorem exists_plain_text (hx : x.isFinite = true) (hplain : 'e' ∉ x.text) :
    ∃ text whole fraction, x.text = x.sign ++ text ∧ Plain text whole fraction ∧
      nearest? x.isNegative (digitsValue (whole ++ fraction)) (10 ^ fraction.length) = some x := by
  by_cases hzero : x.mantissa = 0
  · refine ⟨['0', '.', '0'], ['0'], ['0'], ?_, ?_, ?_⟩
    · unfold Binary64.text
      dsimp only
      rw [if_pos hzero]
      rfl
    · exact ⟨rfl, List.forall_mem_singleton.2 rfl, List.forall_mem_singleton.2 rfl, by decide,
        by decide, fun _ => rfl⟩
    · exact nearest?_zero hx hzero
  · have htext := text_of_mantissa_ne_zero hzero
    have hhit : x.Hit x.shortest := hit_shortestFrom hzero (by decide)
    have hlead : (Nat.toDigits 10 x.shortest.digits).head? ≠ some '0' := fun h =>
      hhit.pos.ne' (Text.eq_zero_of_head?_toDigits h)
    have hdigits : ∀ c ∈ Nat.toDigits 10 x.shortest.digits, c.isDigit = true :=
      Json.isDigit_of_mem_toDigits
    rw [htext] at hplain ⊢
    obtain ⟨whole, fraction, hform, hvalue⟩ := exists_plain hdigits Nat.toDigits_ne_nil hlead
      fun h => hplain (List.mem_append_right _ h)
    rw [Text.digitsValue_toDigits] at hvalue
    refine ⟨_, whole, fraction, rfl, hform, ?_⟩
    rw [nearest?_congr (by positivity) (by positivity) hvalue]
    exact nearest?_shortest hx hzero

end Binary64

end Decimal

namespace Json

open Decimal

theorem value?_fraction (negative : Bool) (whole fraction : List Char) :
    Numeral.value? ⟨negative, whole, some fraction, none⟩ =
      (Binary64.ofDigits? negative whole fraction 0).map float := by
  have hfraction : ¬ ((some fraction).isNone = true) := by simp
  unfold Numeral.value?
  exact if_neg fun h => hfraction h.1

theorem readFraction?_point {fraction : List Char} (h : ∀ c ∈ fraction, c.isDigit = true)
    (hne : fraction ≠ []) : readFraction? ('.' :: fraction) = some (some fraction, []) := by
  have htake : fraction.takeWhile Char.isDigit = fraction := List.takeWhile_eq_self_iff.2 h
  have hdrop : fraction.dropWhile Char.isDigit = [] := List.dropWhile_eq_nil_iff.2 h
  rw [readFraction?, htake, hdrop, if_neg (by simpa using hne)]

theorem readNumber?_plain {text whole fraction : List Char} (h : Plain text whole fraction)
    (negative : Bool) : readNumber? ((if negative then ['-'] else []) ++ text) =
      (Binary64.ofDigits? negative whole fraction 0).map fun x => (float x, []) := by
  have hpoint : ∀ c ∈ ('.' :: fraction).head?, ¬ c.isDigit = true := by
    intro c hc
    cases hc
    decide
  have hnumeral : readNumeral? ((if negative then ['-'] else []) ++ text) =
      some (⟨negative, whole, some fraction, none⟩, []) := by
    rw [h.text_eq, readNumeral?_whole h.whole_digits h.whole_ne h.lead hpoint negative,
      readFraction?_point h.fraction_digits h.fraction_ne]
    rfl
  rw [readNumber?, hnumeral, Option.bind_eq_bind, Option.bind_some]
  dsimp only
  rw [value?_fraction, Option.bind_eq_bind]
  cases Binary64.ofDigits? negative whole fraction 0 <;> rfl

/-- At most fifteen digits without an exponent are read back. -/
theorem readsBack_of_digits {x : Binary64} (hx : x.isFinite = true) (hplain : 'e' ∉ x.text)
    (hdigits : x.text.countP Char.isDigit ≤ 15) : ReadsBack x := by
  obtain ⟨text, whole, fraction, htext, hform, hnear⟩ := Binary64.exists_plain_text hx hplain
  have hlen : whole.length + fraction.length ≤ 15 := by
    have hsign : x.sign.countP Char.isDigit = 0 := by
      unfold Binary64.sign
      split <;> rfl
    have hwhole : whole.countP Char.isDigit = whole.length :=
      List.countP_eq_length.2 hform.whole_digits
    have hfraction : fraction.countP Char.isDigit = fraction.length :=
      List.countP_eq_length.2 hform.fraction_digits
    rw [htext, hform.text_eq, List.countP_append, List.countP_append, hsign, hwhole,
      List.countP_cons_of_neg (by decide), hfraction] at hdigits
    omega
  refine ⟨hx, ?_⟩
  have hread := readNumber?_plain hform x.isNegative
  rw [Binary64.ofDigits?_eq_nearest? hform.whole_digits hform.fraction_digits hform.fraction_ne hlen,
    hnear] at hread
  rw [htext]
  exact hread

end Json

end WorkbookPlan
