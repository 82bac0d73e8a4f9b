import Mathlib.Data.List.TakeWhile
import WorkbookPlan.Json.Printer
import WorkbookPlan.Json.Reader
import WorkbookPlan.Proofs.Text.Digits

/-! Numbers in a text. What is read of a number does not depend on what stands behind it, and whole
numbers of 64 bits are read as they are written. -/
namespace WorkbookPlan.Json

/-- What stands behind a value in a text: nothing, a comma or a closing bracket. -/
def Ends (rest : List Char) : Prop :=
  ∀ c ∈ rest.head?, c = ',' ∨ c = ']' ∨ c = '\x7d'

theorem ends_nil : Ends [] := by
  intro c hc
  cases hc

theorem ends_cons {c : Char} (h : c = ',' ∨ c = ']' ∨ c = '\x7d') (rest : List Char) :
    Ends (c :: rest) := by
  intro d hd
  cases hd
  exact h

section Append

variable {cs rest : List Char} (hrest : Ends rest)

include hrest

theorem Ends.head_ne {c : Char} (hc : c = '-' ∨ c = '+' ∨ c = '.' ∨ c = 'e' ∨ c = 'E' ∨ c.isDigit = true)
    (r : List Char) : rest ≠ c :: r := by
  rintro rfl
  rcases hrest c rfl with rfl | rfl | rfl <;> revert hc <;> decide

theorem takeWhile_digits : (cs ++ rest).takeWhile Char.isDigit = cs.takeWhile Char.isDigit := by
  induction cs with
  | nil =>
    cases rest with
    | nil => rfl
    | cons c rest =>
      have hc : ¬ c.isDigit = true := fun h => hrest.head_ne (by simp [h]) rest rfl
      exact List.takeWhile_cons_of_neg hc
  | cons c cs ih =>
    rw [List.cons_append, List.takeWhile_cons, List.takeWhile_cons, ih]

theorem dropWhile_digits :
    (cs ++ rest).dropWhile Char.isDigit = cs.dropWhile Char.isDigit ++ rest := by
  induction cs with
  | nil =>
    cases rest with
    | nil => rfl
    | cons c rest =>
      have hc : ¬ c.isDigit = true := fun h => hrest.head_ne (by simp [h]) rest rfl
      exact List.dropWhile_cons_of_neg hc
  | cons c cs ih =>
    rw [List.cons_append, List.dropWhile_cons, List.dropWhile_cons]
    split
    · exact ih
    · rfl

theorem splitSign_append : splitSign (cs ++ rest) = ((splitSign cs).1, (splitSign cs).2 ++ rest) := by
  cases cs with
  | nil =>
    unfold splitSign
    split
    · next r h => exact absurd h (hrest.head_ne (by simp) r)
    · rfl
  | cons c cs =>
    by_cases hc : c = '-'
    · subst hc
      rfl
    · have hplain : ∀ r, splitSign (c :: r) = (false, c :: r) := by
        intro r
        simp [splitSign, hc]
      rw [List.cons_append, hplain, hplain]
      rfl

theorem splitPowerSign_append :
    splitPowerSign (cs ++ rest) = ((splitPowerSign cs).1, (splitPowerSign cs).2 ++ rest) := by
  have hsign : splitSign (cs ++ rest) = ((splitSign cs).1, (splitSign cs).2 ++ rest) :=
    splitSign_append hrest
  cases cs with
  | nil =>
    unfold splitPowerSign
    split
    · next r h => exact absurd h (hrest.head_ne (by simp) r)
    · exact hsign
  | cons c cs =>
    by_cases hc : c = '+'
    · subst hc
      rfl
    · have hplain : ∀ r, splitPowerSign (c :: r) = splitSign (c :: r) := by
        intro r
        simp [splitPowerSign, hc]
      rw [List.cons_append, hplain, hplain]
      exact hsign

theorem readFraction?_append {f : Option (List Char)} {r : List Char}
    (h : readFraction? cs = some (f, r)) : readFraction? (cs ++ rest) = some (f, r ++ rest) := by
  cases cs with
  | nil =>
    unfold readFraction? at h ⊢
    cases h
    split
    · next r h => exact absurd h (hrest.head_ne (by simp) r)
    · rfl
  | cons c cs =>
    by_cases hc : c = '.'
    · subst hc
      rw [List.cons_append]
      simp only [readFraction?, takeWhile_digits hrest, dropWhile_digits hrest] at h ⊢
      split at h
      · cases h
      · next hdigits =>
        cases h
        rw [if_neg hdigits]
    · have hplain : ∀ r, readFraction? (c :: r) = some (none, c :: r) := by
        intro r
        simp [readFraction?, hc]
      rw [hplain] at h
      cases h
      rw [List.cons_append, hplain]

theorem readPower?_append {p : Option Int} {r : List Char} (h : readPower? cs = some (p, r)) :
    readPower? (cs ++ rest) = some (p, r ++ rest) := by
  cases cs with
  | nil =>
    cases h
    cases rest with
    | nil => rfl
    | cons c rest =>
      have hc : ¬ (c = 'e' ∨ c = 'E') := by
        rintro (rfl | rfl) <;> exact hrest.head_ne (by simp) rest rfl
      rw [List.nil_append, readPower?, if_neg hc]
  | cons c cs =>
    rw [readPower?] at h
    rw [List.cons_append, readPower?]
    split at h
    · next hc =>
      rw [if_pos hc, splitPowerSign_append hrest]
      simp only [takeWhile_digits hrest, dropWhile_digits hrest]
      simp only at h
      split at h
      · cases h
      · next hdigits =>
        cases h
        rw [if_neg hdigits]
    · next hc =>
      cases h
      rw [if_neg hc]
      rfl

theorem readNumeral?_append {n : Numeral} {r : List Char} (h : readNumeral? cs = some (n, r)) :
    readNumeral? (cs ++ rest) = some (n, r ++ rest) := by
  unfold readNumeral? at h ⊢
  rw [splitSign_append hrest]
  simp only [takeWhile_digits hrest, dropWhile_digits hrest] at h ⊢
  split at h
  · cases h
  · next hwhole =>
    rw [if_neg hwhole]
    obtain ⟨⟨fraction, r'⟩, hfraction, h⟩ := Option.bind_eq_some_iff.1 h
    obtain ⟨⟨power, r''⟩, hpower, h⟩ := Option.bind_eq_some_iff.1 h
    cases h
    rw [readFraction?_append hrest hfraction]
    simp only [Option.bind_eq_bind, Option.bind_some]
    rw [readPower?_append hrest hpower]
    rfl

/-- What is read of a number does not depend on what stands behind it. -/
theorem readNumber?_append {j : Json} {r : List Char} (h : readNumber? cs = some (j, r)) :
    readNumber? (cs ++ rest) = some (j, r ++ rest) := by
  unfold readNumber? at h ⊢
  obtain ⟨⟨n, r'⟩, hnumeral, h⟩ := Option.bind_eq_some_iff.1 h
  obtain ⟨j', hvalue, h⟩ := Option.bind_eq_some_iff.1 h
  cases h
  rw [readNumeral?_append hrest hnumeral]
  simp only [Option.bind_eq_bind, Option.bind_some, hvalue]

end Append

/-- A number starts with a minus sign or a digit. -/
theorem readNumber?_head {cs : List Char} {found : Json × List Char}
    (h : readNumber? cs = some found) : ∃ c r, cs = c :: r ∧ (c = '-' ∨ c.isDigit = true) := by
  obtain ⟨⟨n, r⟩, hnumeral, -⟩ := Option.bind_eq_some_iff.1 h
  unfold readNumeral? at hnumeral
  simp only at hnumeral
  split at hnumeral
  · cases hnumeral
  · next hwhole =>
    cases cs with
    | nil => simp [splitSign] at hwhole
    | cons c cs =>
      refine ⟨c, cs, rfl, ?_⟩
      by_cases hc : c = '-'
      · exact .inl hc
      · have hplain : splitSign (c :: cs) = (false, c :: cs) := by
          simp [splitSign, hc]
        rw [hplain] at hwhole
        cases hdigit : c.isDigit with
        | true => exact .inr rfl
        | false => simp [hdigit] at hwhole

section Whole

variable {n : Nat}

theorem isDigit_of_mem_toDigits : ∀ c ∈ Nat.toDigits 10 n, c.isDigit = true := fun _ hc =>
  Nat.isDigit_of_mem_toDigits (by decide) (by decide) hc

/-- The digits in front of a number, with what may follow them. -/
theorem readNumeral?_whole {whole rest : List Char} (hdigits : ∀ c ∈ whole, c.isDigit = true)
    (hne : whole ≠ []) (hlead : whole.head? = some '0' → whole.length = 1)
    (hrest : ∀ c ∈ rest.head?, ¬ c.isDigit = true) (negative : Bool) :
    readNumeral? ((if negative then ['-'] else []) ++ (whole ++ rest)) =
      (readFraction? rest).bind fun (fraction, r) =>
        (readPower? r).bind fun (power, r) => some (⟨negative, whole, fraction, power⟩, r) := by
  have hsign : splitSign ((if negative then ['-'] else []) ++ (whole ++ rest)) =
      (negative, whole ++ rest) := by
    cases negative with
    | true => rfl
    | false =>
      obtain ⟨c, cs, rfl⟩ := List.exists_cons_of_ne_nil hne
      have hc : c ≠ '-' := by
        rintro rfl
        exact absurd (hdigits '-' List.mem_cons_self) (by decide)
      show splitSign (c :: (cs ++ rest)) = _
      simp [splitSign, hc]
  have htakeRest : rest.takeWhile Char.isDigit = [] := by
    cases rest with
    | nil => rfl
    | cons c rest => exact List.takeWhile_cons_of_neg (hrest c rfl)
  have hdropRest : rest.dropWhile Char.isDigit = rest := by
    cases rest with
    | nil => rfl
    | cons c rest => exact List.dropWhile_cons_of_neg (hrest c rfl)
  have htake : (whole ++ rest).takeWhile Char.isDigit = whole := by
    rw [List.takeWhile_append_of_pos hdigits, htakeRest, List.append_nil]
  have hdrop : (whole ++ rest).dropWhile Char.isDigit = rest := by
    rw [List.dropWhile_append_of_pos hdigits, hdropRest]
  have hfront : ¬ (whole.isEmpty ∨ (whole.head? = some '0' ∧ 1 < whole.length)) := by
    rintro (hempty | ⟨hhead, hlength⟩)
    · exact hne (List.isEmpty_iff.1 hempty)
    · rw [hlead hhead] at hlength
      exact absurd hlength (by decide)
  unfold readNumeral?
  simp only [hsign, htake, hdrop, if_neg hfront]
  rfl

theorem length_of_head?_toDigits (h : (Nat.toDigits 10 n).head? = some '0') :
    (Nat.toDigits 10 n).length = 1 := by
  rw [Text.eq_zero_of_head?_toDigits h]
  rfl

theorem readNumeral?_digits (n : Nat) (negative : Bool) :
    readNumeral? ((if negative then ['-'] else []) ++ Nat.toDigits 10 n) =
      some (⟨negative, Nat.toDigits 10 n, none, none⟩, []) := by
  have hend : ∀ c ∈ ([] : List Char).head?, ¬ c.isDigit = true := nofun
  have hread := readNumeral?_whole (isDigit_of_mem_toDigits (n := n)) Nat.toDigits_ne_nil
    length_of_head?_toDigits hend negative
  rw [List.append_nil] at hread
  rw [hread]
  rfl

end Whole

/-- The whole numbers of 64 bits, signed or not. -/
def FitsWord (i : Int) : Prop :=
  -(Nat.pow 2 63 : Int) ≤ i ∧ i < Nat.pow 2 64

theorem Numeral.value?_whole (negative : Bool) (n : Nat)
    (h : ¬ (negative = true ∧ n = 0) ∧
      if negative = true then n ≤ Nat.pow 2 63 else n < Nat.pow 2 64) :
    Numeral.value? ⟨negative, Nat.toDigits 10 n, none, none⟩ =
      some (int (if negative then -(n : Int) else n)) := by
  unfold Numeral.value?
  dsimp only
  rw [Text.digitsValue_toDigits, if_pos ⟨rfl, rfl, h⟩]

theorem readNumber?_int {i : Int} (h : FitsWord i) :
    readNumber? (toString i).toList = some (int i, []) := by
  unfold FitsWord at h
  unfold readNumber?
  cases i with
  | ofNat n =>
    have htext : (toString (Int.ofNat n)).toList = (if false then ['-'] else []) ++ Nat.toDigits 10 n :=
      Nat.toList_repr
    have hlt : n < Nat.pow 2 64 := Int.ofNat_lt.1 h.2
    have hvalue := Numeral.value?_whole false n ⟨fun h => Bool.noConfusion h.1, hlt⟩
    rw [htext, readNumeral?_digits]
    exact congrArg (Option.bind · fun j => some (j, [])) hvalue
  | negSucc n =>
    have htext : (toString (Int.negSucc n)).toList =
        (if true then ['-'] else []) ++ Nat.toDigits 10 (n + 1) := by
      show ("-" ++ (n + 1).repr).toList = _
      rw [String.toList_append, Nat.toList_repr]
      rfl
    have hle : n + 1 ≤ Nat.pow 2 63 := by
      have hle := h.1
      rw [Int.negSucc_eq] at hle
      omega
    have hvalue := Numeral.value?_whole true (n + 1) ⟨fun h => Nat.succ_ne_zero n h.2, hle⟩
    rw [htext, readNumeral?_digits]
    exact congrArg (Option.bind · fun j => some (j, [])) hvalue

end WorkbookPlan.Json
