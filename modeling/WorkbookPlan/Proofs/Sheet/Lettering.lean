import Mathlib.Data.List.Induction
import Mathlib.Data.Set.Operations
import WorkbookPlan.Proofs.Sheet.Column

/-! Columns and capital letters. As long as the numbers have 32 bits, there is just one text of
capital letters for each column, and each such text is the name of one. The letters of a text that is
read are those of the name of its column, in either case. -/
namespace WorkbookPlan.Sheet.Column

variable {s : String} {c : Char} {cs : List Char} {n r col : Nat}

def IsCapital (cs : List Char) : Prop :=
  ∀ c ∈ cs, c.isUpper = true

/-- The text is one of letters, and its number is that of a column of the sheet. -/
structure IsName (s : String) : Prop where
  ne_empty : s ≠ ""
  isAlpha : ∀ c ∈ s.toList, c.isAlpha = true
  value_le : value s.toList ≤ maxColumns

instance (s : String) : Decidable (IsName s) :=
  decidable_of_iff (s ≠ "" ∧ s.toList.all Char.isAlpha = true ∧ value s.toList ≤ maxColumns)
    ⟨fun ⟨hne, halpha, hle⟩ => ⟨hne, List.all_eq_true.1 halpha, hle⟩,
      fun h => ⟨h.ne_empty, List.all_eq_true.2 h.isAlpha, h.value_le⟩⟩

/-- The columns, counted from zero, whose numbers counted from one have 32 bits. -/
def Numbered : Set Nat :=
  {col | col + 1 < UInt32.size}

section Digit

/-- As a capital, each letter is one of the digits. -/
theorem exists_digit_of_isAlpha (h : c.isAlpha = true) :
    ∃ r < 26, ordinal c = r + 1 ∧ c.toUpper = digit r :=
  of_isAlpha (P := fun c => ∃ r < 26, ordinal c = r + 1 ∧ c.toUpper = digit r) (by decide) h

theorem isUpper_digit : ∀ r < 26, (digit r).isUpper = true := by
  decide

theorem toUpper_of_isUpper (h : c.isUpper = true) : c.toUpper = c := by
  have hbounds : 65 ≤ c.toNat ∧ c.toNat ≤ 90 := of_decide_eq_true h
  have hlower : ¬ ('a'.val ≤ c.val ∧ c.val ≤ 'z'.val) := fun hc => by
    have hle : 97 ≤ c.toNat := hc.1
    omega
  exact dif_neg hlower

theorem IsCapital.isAlpha (h : IsCapital cs) : ∀ c ∈ cs, c.isAlpha = true := fun c hc =>
  Bool.or_eq_true_iff.2 (.inl (h c hc))

theorem IsCapital.map_toUpper (h : IsCapital cs) : cs.map Char.toUpper = cs :=
  (List.map_congr_left fun c hc => toUpper_of_isUpper (h c hc)).trans (List.map_id cs)

end Digit

theorem isCapital_letters (n : Nat) : IsCapital (letters n) := fun c hc => by
  obtain ⟨r, hr, rfl⟩ := exists_digit_of_mem_letters hc
  exact isUpper_digit r hr

theorem value_concat (cs : List Char) (c : Char) :
    value (cs ++ [c]) = value cs * 26 + ordinal c := by
  rw [value, Text.placeValue_append]
  simp [Text.placeValue, value]

/-- One more digit stands behind the letters of the number without it. -/
theorem letters_concat (n : Nat) (hr : r < 26) :
    letters (n * 26 + (r + 1)) = letters n ++ [digit r] := by
  have hlead : (n * 26 + r) / 26 = n := by omega
  have hlast : (n * 26 + r) % 26 = r := by omega
  rw [← Nat.add_assoc, letters_succ, hlead, hlast, digit]

/-- The letters of the number of a text are those of the text, as capitals. -/
theorem letters_value (h : ∀ c ∈ cs, c.isAlpha = true) : letters (value cs) = cs.map Char.toUpper := by
  induction cs using List.reverseRecOn with
  | nil => exact letters_zero
  | append_singleton cs c ih =>
    obtain ⟨hcs, hc⟩ := List.forall_mem_append.1 h
    obtain ⟨r, hr, hordinal, hdigit⟩ := exists_digit_of_isAlpha (hc c List.mem_cons_self)
    rw [value_concat, hordinal, letters_concat _ hr, ih hcs, ← hdigit, List.map_append]
    rfl

/-- The letters of a number are the only capital letters with that number. -/
theorem eq_letters_iff : cs = letters n ↔ IsCapital cs ∧ value cs = n := by
  constructor
  · rintro rfl
    exact ⟨isCapital_letters n, value_letters n⟩
  · rintro ⟨hcapital, rfl⟩
    rw [letters_value hcapital.isAlpha, hcapital.map_toUpper]

section Name

theorem eq_name_iff (h : col ∈ Numbered) :
    s = name col ↔ IsCapital s.toList ∧ value s.toList = col + 1 := by
  rw [← eq_letters_iff, ← toList_name_of_lt h, String.toList_inj]

theorem value_name (h : col ∈ Numbered) : value (name col).toList = col + 1 :=
  ((eq_name_iff h).1 rfl).2

theorem injOn_name : Set.InjOn name Numbered := fun col hcol col' hcol' h => by
  have hvalue := congrArg (fun s : String => value s.toList) h
  rw [value_name hcol, value_name hcol'] at hvalue
  exact Nat.succ.inj hvalue

theorem value_toList_pos (h : s ≠ "") : 0 < value s.toList :=
  value_pos fun hnil => h (String.toList_eq_nil_iff.1 hnil)

theorem name_value_of_isCapital (hne : s ≠ "") (hcapital : IsCapital s.toList)
    (h : value s.toList < UInt32.size) :
    value s.toList - 1 ∈ Numbered ∧ name (value s.toList - 1) = s := by
  have hvalue : value s.toList = value s.toList - 1 + 1 :=
    (Nat.sub_add_cancel (value_toList_pos hne)).symm
  have hnumbered : value s.toList - 1 + 1 < UInt32.size := hvalue ▸ h
  exact ⟨hnumbered, ((eq_name_iff hnumbered).2 ⟨hcapital, hvalue⟩).symm⟩

theorem bijOn_name : Set.BijOn name Numbered
    {s | s ≠ "" ∧ IsCapital s.toList ∧ value s.toList < UInt32.size} := by
  refine ⟨fun col hcol => ?_, injOn_name, ?_⟩
  · have hvalue := value_name hcol
    refine ⟨fun hempty => ?_, ((eq_name_iff hcol).1 rfl).1, hvalue ▸ hcol⟩
    rw [hempty] at hvalue
    exact absurd hvalue (Nat.succ_ne_zero col).symm
  · rintro s ⟨hne, hcapital, hlt⟩
    exact ⟨value s.toList - 1, name_value_of_isCapital hne hcapital hlt⟩

/-- To name the column of some letters is to make capitals of them. -/
theorem name_value (h : IsName s) : name (value s.toList - 1) = s.toUpper := by
  have hvalue : value s.toList - 1 + 1 = value s.toList :=
    Nat.sub_add_cancel (value_toList_pos h.ne_empty)
  have hfits : value s.toList - 1 + 1 < UInt32.size :=
    Nat.lt_of_le_of_lt (hvalue ▸ h.value_le) (by decide)
  rw [← String.toList_inj, toList_name_of_lt hfits, hvalue, letters_value h.isAlpha]
  exact String.toList_map.symm

theorem isName_iff_exists_spells : IsName s ↔ ∃ col, Spells s.toList col := by
  constructor
  · intro h
    have hpos := value_toList_pos h.ne_empty
    have hle := h.value_le
    exact ⟨value s.toList - 1, h.isAlpha, by omega, by omega⟩
  · rintro ⟨col, h⟩
    have hlt := h.lt
    have hvalue := h.value_eq
    exact ⟨fun hempty => h.ne_nil (String.toList_eq_nil_iff.2 hempty), h.isAlpha, by omega⟩

theorem ofName_eq (s : String) :
    ofName s = if IsName s then .ok (value s.toList - 1) else .error (.invalidColumn s) := by
  split
  · next h =>
    obtain ⟨col, hspells⟩ := isName_iff_exists_spells.1 h
    rw [hspells.value_eq, Nat.add_sub_cancel]
    exact read_eq_ok_iff.2 hspells
  · next h =>
    cases hread : ofName s with
    | ok col => exact absurd (isName_iff_exists_spells.2 ⟨col, read_eq_ok_iff.1 hread⟩) h
    | error e =>
      unfold ofName read at hread
      split at hread
      · cases hread
      · rw [← hread, String.ofList_toList]

/-- Column names are the numerals of bijective base 26, for all columns whose number has 32 bits. -/
theorem name_bijective :
    (∀ s, ofName s = if IsName s then .ok (value s.toList - 1) else .error (.invalidColumn s)) ∧
    (∀ s, ∀ col ∈ Numbered, s = name col ↔ IsCapital s.toList ∧ value s.toList = col + 1) ∧
    (∀ s, (ofName s).map name = if IsName s then .ok s.toUpper else .error (.invalidColumn s)) ∧
    Set.BijOn name Numbered
      {s | s ≠ "" ∧ IsCapital s.toList ∧ value s.toList < UInt32.size} := by
  refine ⟨ofName_eq, fun s col => eq_name_iff, fun s => ?_, bijOn_name⟩
  rw [ofName_eq]
  split
  · next h => rw [Except.map, name_value h]
  · rfl

/-- The last column that has a number. -/
theorem name_last : 4294967294 ∈ Numbered ∧ name 4294967294 = "MWLQKWU" := by
  have hlast : 4294967294 + 1 < UInt32.size := by decide
  have hcapital : IsCapital "MWLQKWU".toList := List.all_eq_true.1 (by decide +kernel)
  have hvalue : value "MWLQKWU".toList = 4294967294 + 1 := by decide +kernel
  exact ⟨hlast, ((name_bijective.2.1 _ _ hlast).2 ⟨hcapital, hvalue⟩).symm⟩

/-- The number of a text may pass the last column at its last letter. -/
example : (ofName "xFd").map name = .ok "XFD" ∧ ofName "XFE" = .error (.invalidColumn "XFE") := by
  decide +kernel

end Name

end WorkbookPlan.Sheet.Column
