import Mathlib.Tactic.Ring
import Mathlib.Tactic.TFAE
import WorkbookPlan.Proofs.Sheet.Reference

/-! Areas and their texts. What is read is a rectangle of cells of the sheet, and reading the text
of such a rectangle gives it back, with or without a sheet in front. -/
namespace WorkbookPlan.Sheet

def partText (col : Nat) (row : Option Nat) : List Char :=
  (Column.name col).toList ++ row.elim [] (Nat.toDigits 10)

section Part

variable {col : Nat} {row : Option Nat} {c : Char}

theorem isAlphanum_of_mem_partText (h : c ∈ partText col row) : c.isAlphanum = true := by
  rw [Char.isAlphanum, Bool.or_eq_true]
  rcases List.mem_append.1 h with h | h
  · rw [Column.toList_name] at h
    exact .inl (Column.isAlpha_of_mem_letters h)
  · cases row with
    | none => cases h
    | some r => exact .inr (Nat.isDigit_of_mem_toDigits (by decide) (by decide) h)

theorem isBlank_of_isAlphanum (h : c.isAlphanum = true) : Text.isBlank c = false := by
  have hrange : 48 ≤ c.toNat ∧ c.toNat ≤ 122 := by
    rw [Char.isAlphanum, Bool.or_eq_true, isAlpha_iff_toNat, Char.isDigit_iff_toNat] at h
    have hnine : '9'.toNat = 57 := rfl
    have hzero : '0'.toNat = 48 := rfl
    omega
  simp only [Text.isBlank, Bool.or_eq_false_iff, Bool.and_eq_false_iff, decide_eq_false_iff_not,
    beq_eq_false_iff_ne, ne_eq]
  omega

theorem notMem_partText (h : c.isAlphanum = false) : c ∉ partText col row := by
  intro hmem
  rw [isAlphanum_of_mem_partText hmem] at h
  cases h

theorem numbers_toDigits {row : Nat} (h : IsRow row) : Numbers (Nat.toDigits 10 row) row where
  isDigit _ hc := Nat.isDigit_of_mem_toDigits (by decide) (by decide) hc
  value_eq := by
    rw [← Text.digitsValue_eq, Text.digitsValue_toDigits]
  isRow := h

theorem isPart_partText (hcol : col < maxColumns) (hrow : ∀ r ∈ row, IsRow r) :
    IsPart (partText col row) col row := by
  have hname := Column.spells_name hcol
  have hnone : IsAnchor [] := .inl rfl
  cases row with
  | none => exact .column hnone hname hnone
  | some r => exact .cell hnone hname hnone (numbers_toDigits (hrow r rfl))

end Part

namespace Area

/-- The area is a rectangle of cells of the sheet. -/
structure OnSheet (a : Area) : Prop where
  startCol_le : a.startCol ≤ a.endCol
  endCol_lt : a.endCol < maxColumns
  startRow_pos : 1 ≤ a.startRow
  startRow_le : a.startRow ≤ a.lastRow
  lastRow_le : a.lastRow ≤ maxRows

structure Within (a b : Area) : Prop where
  startCol : b.startCol ≤ a.startCol
  endCol : a.endCol ≤ b.endCol
  startRow : b.startRow ≤ a.startRow
  lastRow : a.lastRow ≤ b.lastRow

variable {a b c : Area}

theorem Within.refl (a : Area) : a.Within a :=
  ⟨Nat.le_refl _, Nat.le_refl _, Nat.le_refl _, Nat.le_refl _⟩

theorem Within.trans (hab : a.Within b) (hbc : b.Within c) : a.Within c where
  startCol := Nat.le_trans hbc.startCol hab.startCol
  endCol := Nat.le_trans hab.endCol hbc.endCol
  startRow := Nat.le_trans hbc.startRow hab.startRow
  lastRow := Nat.le_trans hab.lastRow hbc.lastRow

theorem overlaps_iff : a.overlaps b = true ↔
    a.startCol ≤ b.endCol ∧ b.startCol ≤ a.endCol ∧ a.startRow ≤ b.lastRow ∧
      b.startRow ≤ a.lastRow := by
  simp [overlaps, and_assoc]

theorem exists_contains (h : a.OnSheet) : ∃ cell, a.Contains cell :=
  ⟨⟨a.startCol, a.startRow⟩, Nat.le_refl _, h.startCol_le, Nat.le_refl _, h.startRow_le⟩

theorem overlaps_iff_contains (ha : a.OnSheet) (hb : b.OnSheet) :
    a.overlaps b = true ↔ ∃ cell, a.Contains cell ∧ b.Contains cell := by
  obtain ⟨hacols, -, -, harows, -⟩ := ha
  obtain ⟨hbcols, -, -, hbrows, -⟩ := hb
  rw [overlaps_iff]
  constructor
  · intro h
    refine ⟨⟨max a.startCol b.startCol, max a.startRow b.startRow⟩, ?_, ?_⟩ <;>
      · unfold Contains
        dsimp only
        omega
  · rintro ⟨cell, hhere, hthere⟩
    unfold Contains at hhere hthere
    omega

theorem overlaps_comm (a b : Area) : a.overlaps b = b.overlaps a := by
  rw [Bool.eq_iff_iff, overlaps_iff, overlaps_iff]
  omega

theorem Within.overlaps (hab : a.Within b) (h : a.overlaps c = true) : b.overlaps c = true := by
  obtain ⟨hstartCol, hendCol, hstartRow, hlastRow⟩ := hab
  rw [overlaps_iff] at h ⊢
  omega

theorem onSheet_ofCorners {x y : Cell} (hx : x.col < maxColumns) (hy : y.col < maxColumns)
    (hxrow : IsRow x.row) (hyrow : IsRow y.row) : (ofCorners x y).OnSheet := by
  obtain ⟨hx₁, hx₂⟩ := hxrow
  obtain ⟨hy₁, hy₂⟩ := hyrow
  constructor <;> simp only [ofCorners, lastRow, Option.getD_some] <;> omega

/-- The grammar only knows rectangles of the sheet. -/
theorem Denotes.onSheet {cs : List Char} (h : Denotes cs a) : a.OnSheet := by
  have hmax : 1 ≤ maxRows := by decide
  cases h with
  | cell hpart =>
    obtain ⟨hcol, hrow⟩ := hpart.onSheet
    obtain ⟨hpos, hle⟩ := hrow _ rfl
    exact ⟨Nat.le_refl _, hcol, hpos, Nat.le_refl _, hle⟩
  | box _ h₁ h₂ =>
    obtain ⟨hc₁, hr₁⟩ := h₁.onSheet
    obtain ⟨hc₂, hr₂⟩ := h₂.onSheet
    exact onSheet_ofCorners (x := ⟨_, _⟩) (y := ⟨_, _⟩) hc₁ hc₂ (hr₁ _ rfl) (hr₂ _ rfl)
  | downFrom _ h₁ h₂ =>
    obtain ⟨hc₁, hr₁⟩ := h₁.onSheet
    obtain ⟨hc₂, -⟩ := h₂.onSheet
    obtain ⟨hpos, hle⟩ := hr₁ _ rfl
    exact ⟨by dsimp only; omega, by dsimp only; omega, hpos, hle, Nat.le_refl _⟩
  | columns _ h₁ h₂ =>
    obtain ⟨hc₁, -⟩ := h₁.onSheet
    obtain ⟨hc₂, -⟩ := h₂.onSheet
    exact ⟨by dsimp only; omega, by dsimp only; omega, Nat.le_refl 1, hmax, Nat.le_refl _⟩

theorem onSheet_of_parse {s : String} (h : parse s = .ok a) : a.OnSheet := by
  rw [parse, read] at h
  exact (readLocal_eq_ok_iff.1 h).onSheet

section Write

def IsPlain (cs : List Char) : Prop :=
  ∀ c ∈ cs, c.isAlphanum = true ∨ c = ':'

theorem isPlain_partText (col : Nat) (row : Option Nat) : IsPlain (partText col row) :=
  fun _ hc => .inl (isAlphanum_of_mem_partText hc)

theorem isPlain_pair (c₁ c₂ : Nat) (r₁ r₂ : Option Nat) :
    IsPlain (partText c₁ r₁ ++ ':' :: partText c₂ r₂) := by
  intro c hc
  rcases List.mem_append.1 hc with hc | hc
  · exact isPlain_partText c₁ r₁ c hc
  · rcases List.mem_cons.1 hc with rfl | hc
    · exact .inr rfl
    · exact isPlain_partText c₂ r₂ c hc

variable {cs : List Char}

theorem IsPlain.trim_eq (h : IsPlain cs) : Text.trim cs = cs := by
  refine Text.trim_eq_self fun c hc => ?_
  rcases h c hc with hc | rfl
  · exact isBlank_of_isAlphanum hc
  · decide

theorem IsPlain.notMem (h : IsPlain cs) : '!' ∉ cs := by
  intro hmem
  exact absurd (h '!' hmem) (by decide)

/-- The characters of the text of an area. -/
theorem toList_text (a : Area) : a.text.toList =
    match a.endRow with
    | some last =>
      if a.startCol = a.endCol ∧ a.startRow = last then partText a.startCol (some last)
      else partText a.startCol (some a.startRow) ++ ':' :: partText a.endCol (some last)
    | none =>
      if a.startRow = 1 then partText a.startCol none ++ ':' :: partText a.endCol none
      else partText a.startCol (some a.startRow) ++ ':' :: partText a.endCol none := by
  unfold text
  dsimp only
  cases a.endRow with
  | some last =>
    dsimp only
    split <;> simp [partText]
  | none =>
    dsimp only
    split <;> simp [partText]

theorem isPlain_text (a : Area) : IsPlain a.text.toList := by
  rw [toList_text]
  split
  · split
    · exact isPlain_partText _ _
    · exact isPlain_pair _ _ _ _
  · split
    · exact isPlain_pair _ _ _ _
    · exact isPlain_pair _ _ _ _

theorem denotes_pair {c₁ c₂ startRow : Nat} {r₁ r₂ endRow : Option Nat} (hc₁ : c₁ < maxColumns)
    (hc₂ : c₂ < maxColumns) (hr₁ : ∀ r ∈ r₁, IsRow r) (hr₂ : ∀ r ∈ r₂, IsRow r)
    (hrows : rowBounds? r₁ r₂ = some (startRow, endRow)) :
    Denotes (partText c₁ r₁ ++ ':' :: partText c₂ r₂) ⟨min c₁ c₂, max c₁ c₂, startRow, endRow⟩ := by
  refine .pair (notMem_partText (by decide)) ?_ ?_ hrows
  · rw [(isPlain_partText c₁ r₁).trim_eq]
    exact isPart_partText hc₁ hr₁
  · rw [(isPlain_partText c₂ r₂).trim_eq]
    exact isPart_partText hc₂ hr₂

/-- The text of an area stands for it. -/
theorem denotes_text (h : a.OnSheet) : Denotes a.text.toList a := by
  obtain ⟨startCol, endCol, startRow, endRow⟩ := a
  obtain ⟨hcols, hwidth, hpos, hrows, hheight⟩ := h
  dsimp only [lastRow] at hcols hwidth hpos hrows hheight
  have hstart : startCol < maxColumns := by omega
  have hmin : min startCol endCol = startCol := Nat.min_eq_left hcols
  have hmax : max startCol endCol = endCol := Nat.max_eq_right hcols
  have hfirst : ∀ r ∈ some startRow, IsRow r := by
    intro r hr
    cases hr
    exact ⟨hpos, by omega⟩
  have hpair {r₁ r₂ : Option Nat} (hr₁ : ∀ r ∈ r₁, IsRow r) (hr₂ : ∀ r ∈ r₂, IsRow r)
      (hrows : rowBounds? r₁ r₂ = some (startRow, endRow)) :
      Denotes (partText startCol r₁ ++ ':' :: partText endCol r₂)
        ⟨startCol, endCol, startRow, endRow⟩ := by
    have hdenotes := denotes_pair hstart hwidth hr₁ hr₂ hrows
    rwa [hmin, hmax] at hdenotes
  rw [toList_text]
  cases endRow with
  | some last =>
    simp only [Option.getD_some] at hrows hheight
    have hlast : ∀ r ∈ some last, IsRow r := by
      intro r hr
      cases hr
      exact ⟨by omega, hheight⟩
    dsimp only
    split
    · next hsame =>
      obtain ⟨rfl, rfl⟩ := hsame
      exact .cell (isPart_partText hwidth hlast)
    · refine hpair hfirst hlast ?_
      rw [rowBounds?, Nat.min_eq_left hrows, Nat.max_eq_right hrows]
  | none =>
    dsimp only
    split
    · next hone =>
      subst hone
      exact hpair (by simp) (by simp) rfl
    · exact hpair hfirst (by simp) rfl

theorem readLocal_text (h : a.OnSheet) : readLocal a.text.toList = .ok a := by
  rw [readLocal_eq_ok_iff, (isPlain_text a).trim_eq]
  exact denotes_text h

end Write

end Area

section RoundTrip

namespace Area

variable {a : Area}

/-- Reading the text of an area gives the area back. -/
theorem parse_text (h : a.OnSheet) : parse a.text = .ok a := by
  rw [parse, read_of_notMem (isPlain_text a).notMem, readLocal_text h]

theorem parse_qualified_text (sheet : String) (h : a.OnSheet) :
    parse (sheet ++ "!" ++ a.text) = .ok a := by
  have hchars : (sheet ++ "!" ++ a.text).toList = sheet.toList ++ '!' :: a.text.toList := by simp
  rw [parse, hchars, read_append _ (isPlain_text a).notMem, readLocal_text h]

/-- The cells of the first columns in the first row. -/
theorem parse_rowSpan {width : Nat} (h : width ≤ maxColumns) :
    parse (rowSpan 1 width).text = .ok (rowSpan 1 width) := by
  have hmax : 0 < maxColumns := by decide
  have hrow : IsRow 1 := ⟨Nat.le_refl 1, by decide⟩
  exact parse_text (onSheet_ofCorners hmax (by dsimp only; omega) hrow hrow)

/-- The rectangles of cells of the sheet are just the areas that some text is read as, and each is
read from its own text. -/
theorem text_round_trips (a : Area) :
    [a.OnSheet, parse a.text = .ok a, ∀ sheet : String, parse (sheet ++ "!" ++ a.text) = .ok a,
      ∃ s, parse s = .ok a].TFAE := by
  tfae_have 1 → 2 := parse_text
  tfae_have 2 → 1 := onSheet_of_parse
  tfae_have 1 → 3 := fun h sheet => parse_qualified_text sheet h
  tfae_have 3 → 4 := fun h => ⟨_, h ""⟩
  tfae_have 4 → 1 := fun ⟨_, h⟩ => onSheet_of_parse h
  tfae_finish

end Area

end RoundTrip

section Bands

namespace Area

variable {a b : Area}

theorem sum_bandLengths (rows : Nat) {parts : Nat} (h : 0 < parts) :
    (bandLengths rows parts).sum = rows := by
  obtain ⟨k, hk⟩ := Nat.exists_eq_add_of_lt (Nat.mod_lt rows h)
  have hrows : parts * (rows / parts) + rows % parts = rows := Nat.div_add_mod rows parts
  have hrest : parts - rows % parts = k + 1 := by omega
  rw [bandLengths, List.sum_append, List.sum_replicate_nat, List.sum_replicate_nat, hrest]
  calc rows % parts * (rows / parts + 1) + (k + 1) * (rows / parts)
      = (rows % parts + k + 1) * (rows / parts) + rows % parts := by ring
    _ = rows := by rw [← hk, hrows]

theorem pos_of_mem_bandLengths {rows parts len : Nat} (hparts : 0 < parts) (hle : parts ≤ rows)
    (h : len ∈ bandLengths rows parts) : 0 < len := by
  have hquotient : 0 < rows / parts := Nat.div_pos hle hparts
  rcases List.mem_append.1 h with h | h
  · rw [List.eq_of_mem_replicate h]
    exact Nat.succ_pos _
  · rw [List.eq_of_mem_replicate h]
    exact hquotient

/-- Bands that are not empty lie one under the other. -/
theorem of_mem_bands {start : Nat} {lens : List Nat} (hpos : ∀ len ∈ lens, 0 < len)
    (h : b ∈ a.bands start lens) : b.startCol = a.startCol ∧ b.endCol = a.endCol ∧
      start ≤ b.startRow ∧ b.startRow ≤ b.lastRow ∧ b.lastRow < start + lens.sum := by
  induction lens generalizing start with
  | nil => cases h
  | cons len lens ih =>
    have hlen := hpos len List.mem_cons_self
    rw [bands] at h
    rw [List.sum_cons]
    rcases List.mem_cons.1 h with rfl | h
    · dsimp only [lastRow, Option.getD_some]
      omega
    · obtain ⟨hstartCol, hendCol, hfirst, hle, hlast⟩ :=
        ih (fun n hn => hpos n (List.mem_cons_of_mem _ hn)) h
      omega

/-- The parts of a rectangle are rectangles within it. -/
theorem of_mem_splitRows {parts : Nat} (ha : a.OnSheet) (h : b ∈ a.splitRows parts) :
    b.OnSheet ∧ b.Within a := by
  obtain ⟨hcols, hwidth, hfirst, hrows, hheight⟩ := ha
  unfold splitRows rowCount? at h
  cases hend : a.endRow with
  | none =>
    rw [hend] at h
    obtain rfl := List.mem_singleton.1 h
    exact ⟨⟨hcols, hwidth, hfirst, hrows, hheight⟩, .refl b⟩
  | some last =>
    have hlast : a.lastRow = last := by rw [lastRow, hend, Option.getD_some]
    rw [hend] at h
    dsimp only [Option.map_some] at h
    generalize hrowCount : last - a.startRow + 1 = rows at h
    generalize hcount : max 1 (min parts rows) = count at h
    have hcountPos : 0 < count := by omega
    have hcountLe : count ≤ rows := by omega
    obtain ⟨hstartCol, hendCol, hstart, hle, hend⟩ :=
      of_mem_bands (fun len hlen => pos_of_mem_bandLengths hcountPos hcountLe hlen) h
    rw [sum_bandLengths rows hcountPos] at hend
    constructor
    · constructor <;> omega
    · constructor <;> omega

end Area

end Bands

end WorkbookPlan.Sheet
