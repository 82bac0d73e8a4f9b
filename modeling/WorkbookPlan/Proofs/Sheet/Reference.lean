import WorkbookPlan.Proofs.Sheet.Column
import WorkbookPlan.Proofs.Text.Blank
import WorkbookPlan.Proofs.Text.Digits
import WorkbookPlan.Sheet.Area

/-! The grammar of references. A text is read as an area just if the grammar says that it stands for
that area, and what the grammar says is a rectangle of cells of the sheet. -/
namespace WorkbookPlan.Sheet

def IsRow (row : Nat) : Prop :=
  1 ≤ row ∧ row ≤ maxRows

/-- A dollar sign or nothing. -/
def IsAnchor (cs : List Char) : Prop :=
  cs = [] ∨ cs = ['$']

/-- The digits are those of a row of the sheet, with or without zeros in front. -/
structure Numbers (digits : List Char) (row : Nat) : Prop where
  isDigit : ∀ c ∈ digits, c.isDigit = true
  value_eq : Text.placeValue 10 Text.digit digits = row
  isRow : IsRow row

/-- A column with or without a row, each with or without a dollar sign in front; a dollar sign may also
stand where the row is missing. -/
inductive IsPart : List Char → Nat → Option Nat → Prop where
  | column {a name b col} : IsAnchor a → Column.Spells name col → IsAnchor b →
      IsPart (a ++ name ++ b) col none
  | cell {a name b digits col row} : IsAnchor a → Column.Spells name col → IsAnchor b →
      Numbers digits row → IsPart (a ++ name ++ (b ++ digits)) col (some row)

section Part

variable {a b cs digits name : List Char} {c : Char} {col row : Nat} {row? : Option Nat}

theorem isAlpha_of_isDigit (h : c.isDigit = true) : c.isAlpha = false := by
  have hnine : '9'.toNat = 57 := rfl
  rw [Char.isDigit_iff_toNat] at h
  rw [Bool.eq_false_iff, ne_eq, isAlpha_iff_toNat]
  omega

theorem Numbers.ne_nil (h : Numbers digits row) : digits ≠ [] := by
  rintro rfl
  obtain ⟨hpos, -⟩ := h.isRow
  rw [← h.value_eq] at hpos
  exact absurd hpos (by decide)

theorem exists_anchor (cs : List Char) : ∃ a, IsAnchor a ∧ cs = a ++ dropDollar cs := by
  unfold dropDollar
  split
  · exact ⟨['$'], .inr rfl, rfl⟩
  · exact ⟨[], .inl rfl, rfl⟩

theorem dropDollar_append (ha : IsAnchor a) (hcs : cs.head? ≠ some '$') :
    dropDollar (a ++ cs) = cs := by
  rcases ha with rfl | rfl
  · rw [List.nil_append]
    unfold dropDollar
    split
    · exact absurd rfl hcs
    · rfl
  · rfl

theorem head?_ne_of_forall {p : Char → Bool} (h : ∀ c ∈ cs, p c = true) (hc : p c = false) :
    cs.head? ≠ some c := by
  intro hhead
  rw [h c (List.mem_of_head? hhead)] at hc
  cases hc

theorem isPart_of_readPart (h : readPart cs = .ok (col, row?)) : IsPart cs col row? := by
  unfold readPart at h
  split at h
  · cases h
  · obtain ⟨n, hread, h⟩ := bind_eq_ok_iff.1 h
    have hname := Column.read_eq_ok_iff.1 hread
    obtain ⟨a, ha, hcs⟩ := exists_anchor cs
    obtain ⟨b, hb, hrest⟩ := exists_anchor ((dropDollar cs).dropWhile Char.isAlpha)
    have hwhole : cs = a ++ (dropDollar cs).takeWhile Char.isAlpha ++
        (b ++ dropDollar ((dropDollar cs).dropWhile Char.isAlpha)) := by
      rw [← hrest, List.append_assoc, List.takeWhile_append_dropWhile, ← hcs]
    rw [hwhole]
    dsimp only at h
    split at h
    · next hempty =>
      cases h
      rw [List.isEmpty_iff.1 hempty, List.append_nil]
      exact .column ha hname hb
    · split at h
      · cases h
      · next hdigits =>
        split at h
        · cases h
        · next hbounds =>
          cases h
          refine .cell ha hname hb ⟨?_, (Text.digitsValue_eq _).symm, by omega, by omega⟩
          simpa using hdigits

theorem takeWhile_isAlpha (hname : ∀ c ∈ name, c.isAlpha = true)
    (hcs : ∀ c ∈ cs, c.isAlpha = false) :
    (name ++ cs).takeWhile Char.isAlpha = name ∧ (name ++ cs).dropWhile Char.isAlpha = cs := by
  rw [List.takeWhile_append_of_pos hname, List.dropWhile_append_of_pos hname]
  cases cs with
  | nil => exact ⟨List.append_nil name, rfl⟩
  | cons c cs =>
    have hc : ¬ c.isAlpha = true := by simp [hcs c List.mem_cons_self]
    rw [List.takeWhile_cons_of_neg hc, List.dropWhile_cons_of_neg hc]
    exact ⟨List.append_nil name, rfl⟩

/-- Behind the name of the column only the digits are left to read. -/
theorem readPart_append (ha : IsAnchor a) (hname : Column.Spells name col) (hb : IsAnchor b)
    (hdigits : ∀ c ∈ digits, c.isDigit = true) :
    readPart (a ++ name ++ (b ++ digits)) =
      if digits.isEmpty then .ok (col, none)
      else if Text.digitsValue digits = 0 ∨ maxRows < Text.digitsValue digits then
        .error (.invalidRow (String.ofList (name ++ (b ++ digits))))
      else .ok (col, some (Text.digitsValue digits)) := by
  have hnonempty : (a ++ name ++ (b ++ digits)).isEmpty = false := by
    simp [hname.ne_nil]
  have hhead : (name ++ (b ++ digits)).head? ≠ some '$' := by
    rw [List.head?_append_of_ne_nil _ hname.ne_nil]
    exact head?_ne_of_forall hname.isAlpha (by decide)
  have hrest : ∀ c ∈ b ++ digits, c.isAlpha = false := by
    intro c hc
    rcases List.mem_append.1 hc with hc | hc
    · rcases hb with rfl | rfl
      · cases hc
      · rw [List.mem_singleton.1 hc]
        decide
    · exact isAlpha_of_isDigit (hdigits c hc)
  obtain ⟨htake, hdrop⟩ := takeWhile_isAlpha hname.isAlpha hrest
  have hall : digits.all Char.isDigit = true := List.all_eq_true.2 hdigits
  unfold readPart
  rw [hnonempty, if_neg Bool.false_ne_true, List.append_assoc, dropDollar_append ha hhead]
  dsimp only
  rw [htake, hdrop, dropDollar_append hb (head?_ne_of_forall hdigits (by decide)),
    Column.read_eq_ok_iff.2 hname, hall]
  rfl

/-- What is read as a part is just what the grammar calls one. -/
theorem readPart_eq_ok_iff : readPart cs = .ok (col, row?) ↔ IsPart cs col row? := by
  constructor
  · exact isPart_of_readPart
  · intro h
    cases h with
    | @column a name b col ha hname hb =>
      have hnone : ∀ c ∈ ([] : List Char), c.isDigit = true := fun _ hc => nomatch hc
      have hread := readPart_append ha hname hb hnone
      rwa [List.append_nil] at hread
    | cell ha hname hb hdigits =>
      obtain ⟨hpos, hle⟩ := hdigits.isRow
      rw [readPart_append ha hname hb hdigits.isDigit, Text.digitsValue_eq, hdigits.value_eq, if_neg,
        if_neg (by omega)]
      simpa using hdigits.ne_nil

theorem IsPart.ne_nil (h : IsPart cs col row?) : cs ≠ [] := by
  cases h with
  | column _ hname => simp [hname.ne_nil]
  | cell _ hname => simp [hname.ne_nil]

/-- A part has no marks but dollar signs. -/
theorem IsPart.notMem (h : IsPart cs col row?) (hc : c.isAlphanum = false) (hdollar : c ≠ '$') :
    c ∉ cs := by
  have hanchor {a : List Char} (ha : IsAnchor a) : c ∉ a := by
    rcases ha with rfl | rfl
    · exact List.not_mem_nil
    · simpa using hdollar
  rw [Char.isAlphanum, Bool.or_eq_false_iff] at hc
  have hletters {name : List Char} {col : Nat} (hname : Column.Spells name col) : c ∉ name :=
    fun hmem => absurd (hname.isAlpha c hmem) (by simp [hc.1])
  cases h with
  | column ha hname hb => simp [hanchor ha, hletters hname, hanchor hb]
  | cell ha hname hb hdigits =>
    have hdigits : c ∉ _ := fun hmem => absurd (hdigits.isDigit c hmem) (by simp [hc.2])
    simp [hanchor ha, hletters hname, hanchor hb, hdigits]

theorem IsPart.onSheet (h : IsPart cs col row?) : col < maxColumns ∧ ∀ r ∈ row?, IsRow r := by
  cases h with
  | column ha hname hb => exact ⟨hname.lt, fun _ hr => nomatch hr⟩
  | cell ha hname hb hdigits =>
    refine ⟨hname.lt, fun r hr => ?_⟩
    cases hr
    exact hdigits.isRow

end Part

namespace Area

/-- What a text stands for, the sheet and the blanks around it left out: one cell, or two parts with a
colon between them. The end may lack its row, and then the area is open; the start may lack it only if the
end does. -/
inductive Denotes : List Char → Area → Prop where
  | cell {cs col row} : IsPart cs col (some row) → Denotes cs ⟨col, col, row, some row⟩
  | box {l r c₁ c₂ r₁ r₂} : ':' ∉ l → IsPart (Text.trim l) c₁ (some r₁) →
      IsPart (Text.trim r) c₂ (some r₂) →
      Denotes (l ++ ':' :: r) ⟨min c₁ c₂, max c₁ c₂, min r₁ r₂, some (max r₁ r₂)⟩
  | downFrom {l r c₁ c₂ r₁} : ':' ∉ l → IsPart (Text.trim l) c₁ (some r₁) →
      IsPart (Text.trim r) c₂ none → Denotes (l ++ ':' :: r) ⟨min c₁ c₂, max c₁ c₂, r₁, none⟩
  | columns {l r c₁ c₂} : ':' ∉ l → IsPart (Text.trim l) c₁ none → IsPart (Text.trim r) c₂ none →
      Denotes (l ++ ':' :: r) ⟨min c₁ c₂, max c₁ c₂, 1, none⟩

variable {cs l r : List Char} {a : Area} {col row c₁ c₂ startRow : Nat} {r₁ r₂ endRow : Option Nat}

/-- The two parts and their rows, in one rule. -/
theorem Denotes.pair (hl : ':' ∉ l) (h₁ : IsPart (Text.trim l) c₁ r₁)
    (h₂ : IsPart (Text.trim r) c₂ r₂) (hrows : rowBounds? r₁ r₂ = some (startRow, endRow)) :
    Denotes (l ++ ':' :: r) ⟨min c₁ c₂, max c₁ c₂, startRow, endRow⟩ := by
  cases r₁ <;> cases r₂ <;> cases hrows
  · exact .columns hl h₁ h₂
  · exact .downFrom hl h₁ h₂
  · exact .box hl h₁ h₂

theorem readCell_eq_ok_iff {x : Cell} :
    Cell.read cs = .ok x ↔ IsPart (Text.trim cs) x.col (some x.row) := by
  constructor
  · intro h
    obtain ⟨⟨col, row?⟩, hpart, h⟩ := bind_eq_ok_iff.1 h
    cases row? with
    | none => cases h
    | some row =>
      cases h
      exact readPart_eq_ok_iff.1 hpart
  · intro h
    unfold Cell.read
    dsimp only
    rw [readPart_eq_ok_iff.2 h]
    rfl

theorem readLocal_of_pair (hl : ':' ∉ l) (hcs : Text.trim cs = l ++ ':' :: r)
    (h₁ : IsPart (Text.trim l) c₁ r₁) (h₂ : IsPart (Text.trim r) c₂ r₂)
    (hrows : rowBounds? r₁ r₂ = some (startRow, endRow)) :
    readLocal cs = .ok ⟨min c₁ c₂, max c₁ c₂, startRow, endRow⟩ := by
  have hnonempty : (l ++ ':' :: r).isEmpty = false := by simp
  unfold readLocal
  simp only [hcs, hnonempty, Text.cutFirst?_append hl, readPart_eq_ok_iff.2 h₁,
    readPart_eq_ok_iff.2 h₂]
  dsimp only [Bind.bind, Except.bind]
  rw [hrows]
  rfl

theorem readLocal_of_cell (h : IsPart (Text.trim cs) col (some row)) :
    readLocal cs = .ok ⟨col, col, row, some row⟩ := by
  have hnonempty : (Text.trim cs).isEmpty = false := List.isEmpty_eq_false_iff.2 h.ne_nil
  have hcut : Text.cutFirst? ':' (Text.trim cs) = none :=
    Text.cutFirst?_eq_none (h.notMem (by decide) (by decide))
  have hread : Cell.read (Text.trim cs) = .ok ⟨col, row⟩ := by
    rwa [readCell_eq_ok_iff, Text.trim_trim]
  unfold readLocal
  simp only [hnonempty, hcut, hread]
  dsimp only [Bind.bind, Except.bind]
  simp [ofCorners]

/-- What is read without a sheet is just what the grammar says. -/
theorem readLocal_eq_ok_iff : readLocal cs = .ok a ↔ Denotes (Text.trim cs) a := by
  constructor
  · intro h
    unfold readLocal at h
    dsimp only at h
    split at h
    · cases h
    · split at h
      · obtain ⟨x, hx, h⟩ := bind_eq_ok_iff.1 h
        cases h
        have hpart := readCell_eq_ok_iff.1 hx
        rw [Text.trim_trim] at hpart
        simpa [ofCorners] using Denotes.cell hpart
      · next l r hcut =>
        obtain ⟨⟨c₁, r₁⟩, hleft, h⟩ := bind_eq_ok_iff.1 h
        obtain ⟨⟨c₂, r₂⟩, hright, h⟩ := bind_eq_ok_iff.1 h
        obtain ⟨hcs, hl⟩ := Text.cutFirst?_eq_some_iff.1 hcut
        dsimp only at h
        split at h
        · next startRow endRow hrows =>
          cases h
          rw [hcs]
          exact .pair hl (readPart_eq_ok_iff.1 hleft) (readPart_eq_ok_iff.1 hright) hrows
        · cases h
  · generalize hcs : Text.trim cs = ds
    intro h
    cases h with
    | cell hpart => exact readLocal_of_cell (hcs ▸ hpart)
    | box hl h₁ h₂ => exact readLocal_of_pair hl hcs h₁ h₂ rfl
    | downFrom hl h₁ h₂ => exact readLocal_of_pair hl hcs h₁ h₂ rfl
    | columns hl h₁ h₂ => exact readLocal_of_pair hl hcs h₁ h₂ rfl

end Area

section SheetPart

/-- The local part has no mark in it. -/
theorem splitSheet_append (sheet : List Char) {loc : List Char} (h : '!' ∉ loc) :
    (splitSheet (sheet ++ '!' :: loc)).2 = loc := by
  rw [splitSheet, Text.cutLast?_append sheet h]

theorem splitSheet_of_notMem {cs : List Char} (h : '!' ∉ cs) : splitSheet cs = (none, cs) := by
  rw [splitSheet, Text.cutLast?_eq_none h]

/-- No single quote stands at either end of the name. -/
def IsBare (name : List Char) : Prop :=
  name.head? ≠ some '\x27' ∧ name.getLast? ≠ some '\x27'

/-- The second text is the first one without the single quotes at its two ends. -/
inductive Quotes : List Char → List Char → Prop where
  | around {opening name closing} : (∀ c ∈ opening, c = '\x27') → IsBare name →
      (∀ c ∈ closing, c = '\x27') → Quotes (opening ++ name ++ closing) name

theorem Quotes.isBare {sheet name : List Char} (h : Quotes sheet name) : IsBare name := by
  obtain ⟨-, hbare, -⟩ := h
  exact hbare

theorem Quotes.refl {name : List Char} (h : IsBare name) : Quotes name name := by
  have hquotes : Quotes ([] ++ name ++ []) name :=
    .around (List.forall_mem_nil _) h (List.forall_mem_nil _)
  rwa [List.nil_append, List.append_nil] at hquotes

theorem exists_quotes (sheet : List Char) : ∃ name, Quotes sheet name := by
  have hopening : ∀ c ∈ sheet.takeWhile (· == '\x27'), c = '\x27' := fun c hc => by
    simpa using List.mem_takeWhile_imp hc
  have hsheet : sheet.takeWhile (· == '\x27') ++ sheet.dropWhile (· == '\x27') = sheet :=
    List.takeWhile_append_dropWhile
  cases hrest : sheet.dropWhile (· == '\x27') with
  | nil =>
    rw [hrest] at hsheet
    have hquotes : Quotes (sheet.takeWhile (· == '\x27') ++ [] ++ []) [] :=
      .around hopening ⟨by simp, by simp⟩ (List.forall_mem_nil _)
    rw [List.append_nil, hsheet] at hquotes
    exact ⟨[], hquotes⟩
  | cons x rest =>
    have hx : ¬ (x == '\x27') = true := by
      simpa [hrest] using List.head_dropWhile_not (· == '\x27') (l := sheet) (by simp [hrest])
    have hclosing : ∀ c ∈ (x :: rest).rtakeWhile (· == '\x27'), c = '\x27' := fun c hc => by
      simpa using List.mem_rtakeWhile_imp hc
    have hends : (x :: rest).rdropWhile (· == '\x27') ++ (x :: rest).rtakeWhile (· == '\x27') =
        x :: rest := List.rdropWhile_append_rtakeWhile
    have hne : (x :: rest).rdropWhile (· == '\x27') ≠ [] := fun hnil =>
      hx (List.rdropWhile_eq_nil_iff.1 hnil x List.mem_cons_self)
    have hbare : IsBare ((x :: rest).rdropWhile (· == '\x27')) := by
      constructor
      · obtain ⟨y, name, hname⟩ := List.exists_cons_of_ne_nil hne
        rw [hname, List.cons_append] at hends
        rw [hname, List.head?_cons, (List.cons.inj hends).1]
        simpa using hx
      · rw [List.getLast?_eq_some_getLast hne]
        simpa using List.rdropWhile_last_not _ _ hne
    have hquotes := Quotes.around hopening hbare hclosing
    rw [List.append_assoc, hends, ← hrest, hsheet] at hquotes
    exact ⟨_, hquotes⟩

theorem Quotes.dropped {sheet name : List Char} (h : Quotes sheet name) :
    Text.dropEndWhile (· == '\x27') (sheet.dropWhile (· == '\x27')) = name := by
  obtain ⟨hopening, ⟨hhead, hlast⟩, hclosing⟩ := h
  rw [List.append_assoc, List.dropWhile_append_of_pos (by simpa using hopening)]
  cases name with
  | nil =>
    rw [List.nil_append, List.dropWhile_eq_nil_iff.2 (by simpa using hclosing)]
    rfl
  | cons x name =>
    have hx : ¬ (x == '\x27') = true := by simpa using hhead
    have hend : (x :: name).rdropWhile (· == '\x27') = x :: name :=
      List.rdropWhile_eq_self_iff.2 fun hne => by
        rw [List.getLast?_eq_some_getLast hne] at hlast
        simpa using hlast
    rw [List.cons_append, List.dropWhile_cons_of_neg (p := (· == '\x27')) hx, ← List.cons_append,
      Text.dropEndWhile, List.reverse_append, List.dropWhile_append_of_pos (by simpa using hclosing)]
    exact hend

/-- A sheet is named without the quotes at its ends. -/
theorem splitSheet_quotes {sheet name loc : List Char} (h : Quotes sheet name) (hloc : '!' ∉ loc) :
    splitSheet (sheet ++ '!' :: loc) = (some name, loc) := by
  rw [splitSheet, Text.cutLast?_append sheet hloc]
  simp only [h.dropped]

namespace Area

theorem readLocal_eq_of_trim_eq {cs ds : List Char} (h : Text.trim cs = Text.trim ds) :
    readLocal cs = readLocal ds := by
  unfold readLocal
  rw [h]

theorem read_of_notMem {cs : List Char} (h : '!' ∉ cs) : read cs = readLocal cs := by
  have hnone : '!' ∉ Text.trim cs := fun hmem => h (Text.trim_subset cs hmem)
  rw [read, splitSheet_of_notMem hnone]
  exact readLocal_eq_of_trim_eq (Text.trim_trim cs)

/-- The sheet in front of a range does not matter. -/
theorem read_append (sheet : List Char) {loc : List Char} (h : '!' ∉ loc) :
    read (sheet ++ '!' :: loc) = readLocal loc := by
  have hend : '!' ∉ Text.trimEnd loc := fun hmem => h (Text.trimEnd_subset loc hmem)
  rw [read, Text.trim_append_cons (by decide), splitSheet_append _ hend]
  exact readLocal_eq_of_trim_eq (Text.trim_trimEnd loc)

theorem parse_localPart (s : String) : parse (localPart s) = parse s := by
  rw [parse, localPart, String.toList_ofList, parse]
  rcases Text.notMem_or_exists_last '!' s.toList with hnone | ⟨sheet, loc, hsplit, hloc⟩
  · rw [splitSheet_of_notMem hnone]
  · rw [hsplit, splitSheet_append sheet hloc, read_append sheet hloc, read_of_notMem hloc]

/-- What a text is read as is what the grammar says of the part behind its last exclamation mark. -/
theorem parse_iff_denotes (s : String) :
    ∃ loc, '!' ∉ loc ∧ (s.toList = loc ∨ ∃ sheet, s.toList = sheet ++ '!' :: loc) ∧
      ∀ a, parse s = .ok a ↔ Denotes (Text.trim loc) a := by
  rcases Text.notMem_or_exists_last '!' s.toList with hnone | ⟨sheet, loc, hsplit, hloc⟩
  · refine ⟨s.toList, hnone, .inl rfl, fun a => ?_⟩
    rw [parse, read_of_notMem hnone, readLocal_eq_ok_iff]
  · refine ⟨loc, hloc, .inr ⟨sheet, hsplit⟩, fun a => ?_⟩
    rw [parse, hsplit, read_append sheet hloc, readLocal_eq_ok_iff]

/-- Only the end may lack its row, and the columns may come in any order. -/
example : parse "'a!b'! $ab$007 : C$ " = .ok ⟨2, 27, 7, none⟩ ∧ (parse "C:AB7").toOption = none := by
  decide +kernel

end Area

end SheetPart

end WorkbookPlan.Sheet
