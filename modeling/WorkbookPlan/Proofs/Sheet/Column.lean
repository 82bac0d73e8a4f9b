import Mathlib.Data.List.Basic
import WorkbookPlan.Proofs.Text.Digits
import WorkbookPlan.Sheet.Cell

/-! Column names. They are numerals in bijective base 26: what is read are just the names of columns of
the sheet, and reading the name of such a column gives the column back. -/
namespace WorkbookPlan.Sheet

theorem isAlpha_iff_toNat {c : Char} : c.isAlpha = true ↔
    65 ≤ c.toNat ∧ c.toNat ≤ 90 ∨ 97 ≤ c.toNat ∧ c.toNat ≤ 122 := by
  change (decide (65 ≤ c.val ∧ c.val ≤ 90) ||
    (decide (97 ≤ c.val) && decide (c.val ≤ 122))) = true ↔ _
  rw [Bool.or_eq_true, Bool.and_eq_true, decide_eq_true_iff, decide_eq_true_iff, decide_eq_true_iff]
  exact Iff.rfl

namespace Column

variable {c : Char} {cs : List Char} {n m col : Nat}

section Value

def ordinal (c : Char) : Nat :=
  c.toUpper.toNat - 'A'.toNat + 1

/-- The number of a name: the letters are digits from one to 26, and there is no zero. -/
def value (cs : List Char) : Nat :=
  Text.placeValue 26 ordinal cs

theorem value_pos (h : cs ≠ []) : 0 < value cs := by
  obtain ⟨c, cs, rfl⟩ := List.exists_cons_of_ne_nil h
  have hone : 1 ≤ ordinal c * 26 ^ cs.length :=
    Nat.mul_pos (Nat.succ_pos _) (Nat.pow_pos (by decide))
  exact Nat.lt_of_lt_of_le hone (Nat.le_add_right _ _)

/-- The letters are few enough to be checked one by one. -/
theorem of_isAlpha {P : Char → Prop}
    (hall : ∀ n < 123, (Char.ofNat n).isAlpha = true → P (Char.ofNat n)) (h : c.isAlpha = true) :
    P c := by
  have hlt : c.toNat < 123 := by
    rw [isAlpha_iff_toNat] at h
    omega
  rw [← Char.ofNat_toNat c] at h ⊢
  exact hall _ hlt h

theorem letterValue?_of_isAlpha (h : c.isAlpha = true) : letterValue? c = some (ordinal c) :=
  of_isAlpha (P := fun c => letterValue? c = some (ordinal c)) (by decide) h

private def next? (n : Nat) (c : Char) : Option Nat := do
  let v ← letterValue? c
  if n * 26 + v ≤ maxColumns then some (n * 26 + v) else none

private theorem next?_eq_some_iff : next? n c = some m ↔
    c.isAlpha = true ∧ n * 26 + ordinal c = m ∧ m ≤ maxColumns := by
  unfold next?
  by_cases hc : c.isAlpha = true
  · rw [letterValue?_of_isAlpha hc, Option.bind_eq_bind, Option.bind_some]
    simp only [hc, true_and]
    split
    · next hle => simpa using fun h => h ▸ hle
    · next hgt => simpa using fun h => h ▸ Nat.lt_of_not_le hgt
  · have hnone : letterValue? c = none := if_neg hc
    rw [hnone]
    exact iff_of_false (fun h => nomatch h) fun h => hc h.1

private theorem foldlM_next?_eq_some_iff (hn : n ≤ maxColumns) : cs.foldlM next? n = some m ↔
    (∀ c ∈ cs, c.isAlpha = true) ∧ cs.foldl (fun n c => n * 26 + ordinal c) n = m ∧
      m ≤ maxColumns := by
  induction cs generalizing n with
  | nil => simpa using fun h : n = m => h ▸ hn
  | cons c cs ih =>
    rw [List.foldlM_cons, Option.bind_eq_bind, Option.bind_eq_some_iff, List.forall_mem_cons,
      List.foldl_cons]
    constructor
    · rintro ⟨k, hk, hrest⟩
      obtain ⟨hc, rfl, hle⟩ := next?_eq_some_iff.1 hk
      obtain ⟨hcs, hm⟩ := (ih hle).1 hrest
      exact ⟨⟨hc, hcs⟩, hm⟩
    · rintro ⟨⟨hc, hcs⟩, rfl, hm⟩
      -- the number only grows, so each leading part stays within the sheet if the whole does
      have hgrow : n * 26 + ordinal c ≤
          cs.foldl (fun n c => n * 26 + ordinal c) (n * 26 + ordinal c) := by
        rw [Text.foldl_eq_placeValue]
        exact Nat.le_add_right_of_le (Nat.le_mul_of_pos_right _ (Nat.pow_pos (by decide)))
      have hle := Nat.le_trans hgrow hm
      exact ⟨_, next?_eq_some_iff.2 ⟨hc, rfl, hle⟩, (ih hle).2 ⟨hcs, rfl, hm⟩⟩

theorem number?_eq_some_iff : number? cs = some n ↔
    (∀ c ∈ cs, c.isAlpha = true) ∧ value cs = n ∧ n ≤ maxColumns := by
  have hread : number? cs = cs.foldlM next? 0 := rfl
  rw [hread, foldlM_next?_eq_some_iff (Nat.zero_le _), Text.foldl_eq_placeValue, Nat.zero_mul,
    Nat.zero_add, value]

end Value

/-- The letters are the name of a column of the sheet, which is counted from zero. -/
structure Spells (cs : List Char) (col : Nat) : Prop where
  isAlpha : ∀ c ∈ cs, c.isAlpha = true
  value_eq : value cs = col + 1
  lt : col < maxColumns

theorem Spells.ne_nil (h : Spells cs col) : cs ≠ [] := by
  rintro rfl
  exact absurd h.value_eq (Nat.succ_ne_zero col).symm

/-- What is read are just the names of columns of the sheet. -/
theorem read_eq_ok_iff : read cs = .ok col ↔ Spells cs col := by
  constructor
  · intro h
    unfold read at h
    split at h
    · next c rest n hn =>
      cases h
      obtain ⟨halpha, hvalue, hle⟩ := number?_eq_some_iff.1 hn
      have hpos : 0 < value (c :: rest) := value_pos (List.cons_ne_nil c rest)
      exact ⟨halpha, by omega, by omega⟩
    · cases h
  · intro h
    have hn : number? cs = some (col + 1) := number?_eq_some_iff.2 ⟨h.isAlpha, h.value_eq, h.lt⟩
    obtain ⟨c, rest, rfl⟩ := List.exists_cons_of_ne_nil h.ne_nil
    simp [read, hn]

def digit (r : Nat) : Char :=
  Char.ofNat (65 + r)

theorem ordinal_digit : ∀ r < 26, ordinal (digit r) = r + 1 := by
  decide

theorem exists_digit_of_mem_letters (h : c ∈ letters n) : ∃ r < 26, c = digit r := by
  induction n using letters.induct with
  | case1 => simp at h
  | case2 n hn ih =>
    obtain ⟨m, rfl⟩ := Nat.exists_eq_succ_of_ne_zero hn
    rw [letters_succ] at h
    rcases List.mem_append.1 h with h | h
    · exact ih h
    · exact ⟨m % 26, Nat.mod_lt _ (by decide), List.mem_singleton.1 h⟩

theorem isAlpha_of_mem_letters (h : c ∈ letters n) : c.isAlpha = true := by
  have hdigit : ∀ r < 26, (digit r).isAlpha = true := by decide
  obtain ⟨r, hr, rfl⟩ := exists_digit_of_mem_letters h
  exact hdigit r hr

/-- Each number has its letters. -/
theorem value_letters (n : Nat) : value (letters n) = n := by
  induction n using letters.induct with
  | case1 =>
    rw [letters_zero]
    rfl
  | case2 n hpos ih =>
    obtain ⟨m, rfl⟩ := Nat.exists_eq_succ_of_ne_zero hpos
    have hlead : Text.placeValue 26 ordinal (letters (m / 26)) = m / 26 := ih
    have hlast : ordinal (Char.ofNat (65 + m % 26)) = m % 26 + 1 :=
      ordinal_digit (m % 26) (Nat.mod_lt _ (by decide))
    rw [Nat.succ_eq_add_one, letters_succ, value, Text.placeValue_append, hlead]
    simp only [Text.placeValue, hlast, List.length_cons, List.length_nil]
    omega

theorem spells_letters (h : col < maxColumns) : Spells (letters (col + 1)) col where
  isAlpha _ hc := isAlpha_of_mem_letters hc
  value_eq := value_letters (col + 1)
  lt := h

@[simp] theorem toList_name (col : Nat) :
    (name col).toList = letters ((col + 1) % UInt32.size) := by
  simp [name]

theorem toList_name_of_lt (h : col + 1 < UInt32.size) : (name col).toList = letters (col + 1) := by
  rw [toList_name, Nat.mod_eq_of_lt h]

/-- The name of a column of the sheet is the text of its letters. -/
theorem spells_name (h : col < maxColumns) : Spells (name col).toList col := by
  have hfits : col + 1 < UInt32.size := Nat.lt_of_le_of_lt h (by decide)
  rw [toList_name_of_lt hfits]
  exact spells_letters h

/-- Reading the name of a column of the sheet gives the column back. -/
theorem ofName_name (h : col < maxColumns) : ofName (name col) = .ok col :=
  read_eq_ok_iff.2 (spells_name h)

end Column

end WorkbookPlan.Sheet
