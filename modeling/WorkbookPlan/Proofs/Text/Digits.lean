import Mathlib.Algebra.Group.Nat.Defs
import Mathlib.Data.List.Basic
import Mathlib.Data.Nat.Init
import WorkbookPlan.Text.Basic

/-! Readers, and the digits they read. A reader in two steps succeeds just if both steps do, and the
first error is the error. -/
namespace WorkbookPlan

section Bind

variable {ε α β : Type _} {x : Except ε α} {f : α → Except ε β}

theorem bind_eq_ok_iff {b : β} : (x >>= f) = .ok b ↔ ∃ a, x = .ok a ∧ f a = .ok b := by
  cases x <;> simp [bind, Except.bind]

theorem bind_eq_error_iff {e : ε} :
    (x >>= f) = .error e ↔ x = .error e ∨ ∃ a, x = .ok a ∧ f a = .error e := by
  cases x <;> simp [bind, Except.bind]

end Bind

namespace Text

/-- The number that digits stand for: each counts as often as the number of places behind it says. -/
def placeValue (base : Nat) (digit : Char → Nat) : List Char → Nat
  | [] => 0
  | c :: cs => digit c * base ^ cs.length + placeValue base digit cs

/-- Reading digit by digit gives the same number. -/
theorem foldl_eq_placeValue (base : Nat) (digit : Char → Nat) (n : Nat) (cs : List Char) :
    cs.foldl (fun n c => n * base + digit c) n =
      n * base ^ cs.length + placeValue base digit cs := by
  induction cs generalizing n with
  | nil => simp [placeValue]
  | cons c cs ih =>
    rw [List.foldl_cons, ih, placeValue, List.length_cons, Nat.pow_succ', Nat.add_mul,
      Nat.mul_assoc, Nat.add_assoc]

theorem placeValue_append (base : Nat) (digit : Char → Nat) (a b : List Char) :
    placeValue base digit (a ++ b) =
      placeValue base digit a * base ^ b.length + placeValue base digit b := by
  have hread := foldl_eq_placeValue base digit 0 (a ++ b)
  rw [List.foldl_append, foldl_eq_placeValue, foldl_eq_placeValue] at hread
  simpa using hread.symm

section Decimal

variable {word : Nat} {ds : List Char}

theorem digit_lt {c : Char} (h : c.isDigit = true) : digit c < 10 := by
  have hnine : '9'.toNat = 57 := rfl
  have hzero : '0'.toNat = 48 := rfl
  rw [Char.isDigit_iff_toNat] at h
  unfold digit
  omega

theorem digitsBehind_eq (word : Nat) (ds : List Char) :
    digitsBehind word ds = word * 10 ^ ds.length + placeValue 10 digit ds :=
  foldl_eq_placeValue 10 digit word ds

theorem digitsValue_eq (ds : List Char) : digitsValue ds = placeValue 10 digit ds := by
  rw [digitsValue, digitsBehind_eq, Nat.zero_mul, Nat.zero_add]

theorem digitsBehind_append (word : Nat) (ds ds' : List Char) :
    digitsBehind word (ds ++ ds') = digitsBehind (digitsBehind word ds) ds' :=
  List.foldl_append

theorem digitsBehind_lt (hds : ∀ c ∈ ds, c.isDigit = true) :
    digitsBehind word ds < (word + 1) * 10 ^ ds.length := by
  induction ds generalizing word with
  | nil => exact (Nat.mul_one (word + 1)).symm ▸ Nat.lt_succ_self word
  | cons c ds ih =>
    obtain ⟨hc, hds⟩ := List.forall_mem_cons.1 hds
    have hdigit : digit c < 10 := digit_lt hc
    have hnext : word * 10 + digit c + 1 ≤ (word + 1) * 10 := by omega
    refine Nat.lt_of_lt_of_le (ih hds) ?_
    rw [List.length_cons, Nat.pow_succ, Nat.mul_comm (10 ^ ds.length), ← Nat.mul_assoc]
    exact Nat.mul_le_mul_right _ hnext

theorem digitsValue_toDigits (n : Nat) : digitsValue (Nat.toDigits 10 n) = n := by
  have hsame : digitsValue (Nat.toDigits 10 n) = Nat.ofDigitChars 10 (Nat.toDigits 10 n) 0 := by
    unfold digitsValue digitsBehind Nat.ofDigitChars
    congr 1
    funext value c
    rw [Nat.mul_comm]
    rfl
  rw [hsame]
  exact Nat.ofDigitChars_toDigits (by decide) (by decide)

end Decimal

theorem toDigits_injective {m n : Nat} (h : Nat.toDigits 10 m = Nat.toDigits 10 n) : m = n := by
  have hread := congrArg (fun digits => Nat.ofDigitChars 10 digits 0) h
  simpa using hread

/-- The digits up to the first underscore are the number. -/
private theorem takeWhile_isDigit (n : Nat) (rest : List Char) :
    (Nat.toDigits 10 n ++ '_' :: rest).takeWhile Char.isDigit = Nat.toDigits 10 n := by
  have hdigits : ∀ c ∈ Nat.toDigits 10 n, c.isDigit = true := fun c hc =>
    Nat.isDigit_of_mem_toDigits (by decide) (by decide) hc
  have hbar : Char.isDigit '_' = false := by decide
  rw [List.takeWhile_append_of_pos hdigits, List.takeWhile_cons_of_neg (by simp [hbar]),
    List.append_nil]

theorem eq_of_digits_append {m n : Nat} {a b : List Char}
    (h : Nat.toDigits 10 m ++ '_' :: a = Nat.toDigits 10 n ++ '_' :: b) : m = n := by
  have hdigits := congrArg (List.takeWhile Char.isDigit) h
  rw [takeWhile_isDigit, takeWhile_isDigit] at hdigits
  exact toDigits_injective hdigits

/-- Only zero is written with a zero in front. -/
theorem eq_zero_of_head?_toDigits {n : Nat} (h : (Nat.toDigits 10 n).head? = some '0') : n = 0 := by
  induction n using Nat.strongRecOn with
  | ind n ih =>
    by_cases hn : n < 10
    · have hsmall : ∀ m < 10, m.digitChar = '0' → m = 0 := by decide
      rw [Nat.toDigits_of_lt_base hn] at h
      exact hsmall n hn (Option.some.inj h)
    · have hle : 10 ≤ n := Nat.le_of_not_lt hn
      rw [Nat.toDigits_of_base_le (by decide) hle,
        List.head?_append_of_ne_nil _ Nat.toDigits_ne_nil] at h
      have hzero : n / 10 = 0 := ih (n / 10) (by omega) h
      omega

end Text

end WorkbookPlan
