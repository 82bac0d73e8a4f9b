import Mathlib.Data.Set.Defs
import WorkbookPlan.Proofs.Sheet.Area

/-! Areas as sets of cells. Areas that are read overlap if and only if they have a cell of the sheet in
common, because their corners are in order and their rows are rows of the sheet. -/
namespace WorkbookPlan.Sheet.Area

variable {a b : Area} {cell : Cell}

/-- The cells of the sheet in the columns of the area, from its first row to its last; without a last
row to the end of the sheet. -/
def cells (a : Area) : Set Cell :=
  {cell | a.startCol ≤ cell.col ∧ cell.col ≤ a.endCol ∧ a.startRow ≤ cell.row ∧
    (∀ last ∈ a.endRow, cell.row ≤ last) ∧ cell.row ≤ maxRows}

theorem le_lastRow_iff (h : a.lastRow ≤ maxRows) {row : Nat} :
    row ≤ a.lastRow ↔ (∀ last ∈ a.endRow, row ≤ last) ∧ row ≤ maxRows := by
  rw [lastRow] at h ⊢
  cases hend : a.endRow with
  | none => simp
  | some last =>
    rw [hend, Option.getD_some] at h
    simp only [Option.getD_some, Option.mem_some_iff, forall_eq']
    omega

/-- An area of the sheet holds no cells but those of the sheet. -/
theorem mem_cells_iff (h : a.OnSheet) : cell ∈ a.cells ↔ a.Contains cell := by
  unfold Contains
  rw [le_lastRow_iff h.lastRow_le]
  exact Iff.rfl

theorem overlaps_iff_mem_cells (ha : a.OnSheet) (hb : b.OnSheet) :
    a.overlaps b = true ↔ ∃ cell, cell ∈ a.cells ∧ cell ∈ b.cells := by
  rw [overlaps_iff_contains ha hb]
  exact exists_congr fun cell => and_congr (mem_cells_iff ha).symm (mem_cells_iff hb).symm

theorem overlaps_self (h : a.OnSheet) : a.overlaps a = true := by
  obtain ⟨cell, hcell⟩ := exists_contains h
  exact (overlaps_iff_contains h h).2 ⟨cell, hcell, hcell⟩

/-- Areas that are read overlap just if a cell of the sheet is in both. -/
theorem overlaps_iff_common_cell {s t : String} (ha : parse s = .ok a) (hb : parse t = .ok b) :
    (a.overlaps b = true ↔ ∃ cell, cell ∈ a.cells ∧ cell ∈ b.cells) ∧
      a.overlaps b = b.overlaps a ∧ a.overlaps a = true := by
  have ha := onSheet_of_parse ha
  have hb := onSheet_of_parse hb
  exact ⟨overlaps_iff_mem_cells ha hb, overlaps_comm a b, overlaps_self ha⟩

/-- An open area may start in the last row of the sheet, and then it is a single cell. -/
theorem overlaps_last_row :
    parse "D1048576:D" = .ok ⟨3, 3, 1048576, none⟩ ∧
      parse "'Price List'!F1048576:B7" = .ok ⟨1, 5, 7, some 1048576⟩ ∧
      ∃ cell, cell ∈ cells ⟨3, 3, 1048576, none⟩ ∧ cell ∈ cells ⟨1, 5, 7, some 1048576⟩ := by
  have hopen : parse "D1048576:D" = .ok ⟨3, 3, 1048576, none⟩ := by decide +kernel
  have hbox : parse "'Price List'!F1048576:B7" = .ok ⟨1, 5, 7, some 1048576⟩ := by decide +kernel
  exact ⟨hopen, hbox, (overlaps_iff_common_cell hopen hbox).1.1 (by decide)⟩

/-- With corners out of order an area without cells can overlap another, and not itself. -/
example :
    let a : Area := ⟨2, 1, 1, none⟩
    a.overlaps ⟨0, 3, 1, none⟩ = true ∧ a.overlaps a = false := by
  decide

end WorkbookPlan.Sheet.Area
