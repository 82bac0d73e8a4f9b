import WorkbookPlan.Draft.Basic
import WorkbookPlan.Proofs.Json.Record
import WorkbookPlan.Proofs.Sheet.Area
import WorkbookPlan.Proofs.Step.Ancestors

/-! What a step writes, as it can be told from its parameters. A step that writes a column touches
the cells of the column below the header, and no other column. -/
namespace WorkbookPlan

namespace WriteArea

/-- All that the first area touches the second touches. -/
inductive Within : WriteArea → WriteArea → Prop where
  | wholeSheet (a : WriteArea) : Within a .wholeSheet
  | cells {a b : Sheet.Area} : a.Within b → Within (.cells a) (.cells b)

variable {a b c : WriteArea}

theorem Within.refl (a : WriteArea) : a.Within a := by
  cases a with
  | wholeSheet => exact .wholeSheet _
  | cells a => exact .cells (.refl a)

theorem Within.trans (hab : a.Within b) (hbc : b.Within c) : a.Within c := by
  cases hbc with
  | wholeSheet => exact .wholeSheet a
  | cells hbc =>
    cases hab with
    | cells hab => exact .cells (hab.trans hbc)

theorem Within.overlaps (hab : a.Within b) (h : a.overlaps c = true) : b.overlaps c = true := by
  cases hab with
  | wholeSheet => cases c <;> rfl
  | cells hab =>
    cases c with
    | wholeSheet => rfl
    | cells c => exact Sheet.Area.Within.overlaps hab h

def Contains : WriteArea → Sheet.Cell → Prop
  | wholeSheet, _ => True
  | cells a, cell => a.Contains cell

def OnSheet : WriteArea → Prop
  | wholeSheet => True
  | cells a => a.OnSheet

theorem exists_contains (ha : a.OnSheet) : ∃ cell, a.Contains cell := by
  cases a with
  | wholeSheet => exact ⟨⟨0, 1⟩, trivial⟩
  | cells a => exact Sheet.Area.exists_contains ha

/-- Areas overlap just if they have a cell in common. -/
theorem overlaps_iff_contains (ha : a.OnSheet) (hb : b.OnSheet) :
    a.overlaps b = true ↔ ∃ cell, a.Contains cell ∧ b.Contains cell := by
  cases a with
  | wholeSheet =>
    obtain ⟨cell, hcell⟩ := exists_contains hb
    exact iff_of_true rfl ⟨cell, trivial, hcell⟩
  | cells a =>
    cases b with
    | wholeSheet =>
      obtain ⟨cell, hcell⟩ := exists_contains ha
      exact iff_of_true rfl ⟨cell, hcell, trivial⟩
    | cells b => exact Sheet.Area.overlaps_iff_contains ha hb

end WriteArea

namespace Step

open Sheet

variable {s t u : Step} {sheet sheet' : String} {col col' : Nat}

theorem sheet?_of_footprint? {area : WriteArea} (h : s.footprint? = some (sheet, area)) :
    s.isWrite = true ∧ s.sheet? = some sheet := by
  unfold footprint? at h
  split at h
  · next hwrite =>
    obtain ⟨name, hname, hpair⟩ := Option.map_eq_some_iff.1 h
    refine ⟨hwrite, hname.trans ?_⟩
    split at hpair <;>
      · cases hpair
        rfl
  · cases h

theorem footprint?_of_sheet? (hwrite : s.isWrite = true) (hsheet : s.sheet? = some sheet) :
    s.footprint? = some (sheet, match Area.parse s.writtenRange with
      | .ok a => .cells a
      | .error _ => .wholeSheet) := by
  rw [footprint?, if_pos hwrite, hsheet, Area.parse_localPart]
  cases Area.parse s.writtenRange <;> rfl

theorem sheet?_eq_of_collides (h : s.collides t = true) : s.sheet? = t.sheet? := by
  obtain ⟨sheet, area, area', hs, ht, -⟩ := collides_iff.1 h
  rw [(sheet?_of_footprint? hs).2, (sheet?_of_footprint? ht).2]

theorem footprint?_congr (hwrite : s.isWrite = t.isWrite) (hsheet : s.sheet? = t.sheet?)
    (hrange : Area.parse s.writtenRange = Area.parse t.writtenRange) :
    s.footprint? = t.footprint? := by
  simp only [footprint?, hwrite, hsheet, Area.parse_localPart, hrange]

theorem footprint?_of_range {range : String} {a : Area} (hrange : s.param? "range" = some range)
    (ha : Area.parse range = .ok a) :
    s.footprint? = if s.isWrite then s.sheet?.map (·, .cells a) else none := by
  have hwritten : s.writtenRange = range := by
    rw [writtenRange, hrange]
    rfl
  simp only [footprint?, hwritten, Area.parse_localPart, ha]

/-- The step writes on the sheet, and the range that it names has the cell; a range that cannot be
read stands for the whole sheet. -/
structure Touches (s : Step) (sheet : String) (cell : Cell) : Prop where
  isWrite : s.isWrite = true
  sheet : s.sheet? = some sheet
  contains : ∀ a, Area.parse s.writtenRange = .ok a → a.Contains cell

theorem onSheet_of_footprint? {area : WriteArea} (h : s.footprint? = some (sheet, area)) :
    area.OnSheet := by
  obtain ⟨hwrite, hsheet⟩ := sheet?_of_footprint? h
  rw [footprint?_of_sheet? hwrite hsheet] at h
  cases hrange : Area.parse s.writtenRange with
  | ok a =>
    rw [hrange] at h
    cases h
    exact Area.onSheet_of_parse hrange
  | error e =>
    rw [hrange] at h
    cases h
    trivial

theorem touches_iff {cell : Cell} : s.Touches sheet cell ↔
    ∃ area, s.footprint? = some (sheet, area) ∧ area.Contains cell := by
  constructor
  · rintro ⟨hwrite, hsheet, hcell⟩
    refine ⟨_, footprint?_of_sheet? hwrite hsheet, ?_⟩
    cases hrange : Area.parse s.writtenRange with
    | ok a => exact hcell a hrange
    | error e => trivial
  · rintro ⟨area, hfoot, hcell⟩
    obtain ⟨hwrite, hsheet⟩ := sheet?_of_footprint? hfoot
    refine ⟨hwrite, hsheet, fun a hrange => ?_⟩
    rw [footprint?_of_sheet? hwrite hsheet, hrange] at hfoot
    cases hfoot
    exact hcell

/-- A step that writes on a sheet touches some cell of it. -/
theorem exists_touches (hwrite : s.isWrite = true) (hsheet : s.sheet? = some sheet) :
    ∃ cell, s.Touches sheet cell := by
  obtain ⟨area, hfootprint⟩ : ∃ area, s.footprint? = some (sheet, area) :=
    ⟨_, footprint?_of_sheet? hwrite hsheet⟩
  obtain ⟨cell, hcell⟩ := WriteArea.exists_contains (onSheet_of_footprint? hfootprint)
  exact ⟨cell, touches_iff.2 ⟨_, hfootprint, hcell⟩⟩

/-- Steps get into each other's way just if both touch some cell. -/
theorem collides_iff_touches : s.collides t = true ↔
    ∃ sheet cell, s.Touches sheet cell ∧ t.Touches sheet cell := by
  rw [collides_iff]
  constructor
  · rintro ⟨sheet, area, area', hs, ht, hoverlap⟩
    obtain ⟨cell, hhere, hthere⟩ :=
      (WriteArea.overlaps_iff_contains (onSheet_of_footprint? hs) (onSheet_of_footprint? ht)).1
        hoverlap
    exact ⟨sheet, cell, touches_iff.2 ⟨area, hs, hhere⟩, touches_iff.2 ⟨area', ht, hthere⟩⟩
  · rintro ⟨sheet, cell, hs, ht⟩
    obtain ⟨area, hs, hhere⟩ := touches_iff.1 hs
    obtain ⟨area', ht, hthere⟩ := touches_iff.1 ht
    have hareas :=
      WriteArea.overlaps_iff_contains (onSheet_of_footprint? hs) (onSheet_of_footprint? ht)
    exact ⟨sheet, area, area', hs, ht, hareas.2 ⟨cell, hhere, hthere⟩⟩

/-- What the first step writes lies within what the second one writes. -/
def Inside (s t : Step) : Prop :=
  ∀ sheet area, s.footprint? = some (sheet, area) →
    ∃ area', t.footprint? = some (sheet, area') ∧ area.Within area'

theorem inside_of_eq (h : s.footprint? = t.footprint?) : s.Inside t := fun _ area hs =>
  ⟨area, h ▸ hs, .refl area⟩

theorem Inside.trans (hst : s.Inside t) (htu : t.Inside u) : s.Inside u := by
  intro sheet area hs
  obtain ⟨area', ht, hwithin⟩ := hst sheet area hs
  obtain ⟨area'', hu, hwithin'⟩ := htu sheet area' ht
  exact ⟨area'', hu, hwithin.trans hwithin'⟩

/-- What gets in the way of a part gets in the way of the whole. -/
theorem Inside.collides (hst : s.Inside t) (h : s.collides u = true) : t.collides u = true := by
  obtain ⟨sheet, area, other, hs, hu, hoverlap⟩ := collides_iff.1 h
  obtain ⟨area', ht, hwithin⟩ := hst sheet area hs
  exact collides_iff.2 ⟨sheet, area', other, ht, hu, hwithin.overlaps hoverlap⟩

/-- The step writes a column below its header. -/
structure Fills (s : Step) (sheet : String) (col : Nat) : Prop where
  isWrite : s.isWrite = true
  sheet : s.sheet? = some sheet
  range : s.param? "range" = none
  preview : s.preview.map (·.affectedRange) = some (Draft.columnBody (Column.name col))

theorem text_columnFrom (col : Nat) :
    (Area.columnFrom col 2).text = Draft.columnBody (Column.name col) := by
  have htwo : toString 2 = "2" := by decide
  simp [Area.text, Area.columnFrom, Draft.columnBody, htwo, String.append_assoc]

theorem onSheet_columnFrom (hcol : col < maxColumns) : (Area.columnFrom col 2).OnSheet where
  startCol_le := Nat.le_refl _
  endCol_lt := hcol
  startRow_pos := (by decide : 1 ≤ 2)
  startRow_le := (by decide : 2 ≤ maxRows)
  lastRow_le := Nat.le_refl _

theorem Fills.footprint?_eq (h : s.Fills sheet col) (hcol : col < maxColumns) :
    s.footprint? = some (sheet, .cells (Area.columnFrom col 2)) := by
  have hrange : s.writtenRange = (Area.columnFrom col 2).text := by
    rw [writtenRange, h.range, h.preview, text_columnFrom]
    rfl
  rw [footprint?_of_sheet? h.isWrite h.sheet, hrange, Area.parse_text (onSheet_columnFrom hcol)]

/-- Two columns meet only if they are the same. -/
theorem Fills.eq_of_collides (hs : s.Fills sheet col) (ht : t.Fills sheet' col')
    (hcol : col < maxColumns) (hcol' : col' < maxColumns) (h : s.collides t = true) :
    sheet = sheet' ∧ col = col' := by
  obtain ⟨_, _, _, hhere, hthere, hoverlap⟩ := collides_iff.1 h
  rw [hs.footprint?_eq hcol] at hhere
  rw [ht.footprint?_eq hcol'] at hthere
  cases hhere
  cases hthere
  obtain ⟨hle, hge, -, -⟩ := Area.overlaps_iff.1 hoverlap
  exact ⟨rfl, Nat.le_antisymm hle hge⟩

end Step

end WorkbookPlan
