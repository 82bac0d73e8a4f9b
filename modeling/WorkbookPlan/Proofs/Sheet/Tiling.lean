import Mathlib.Data.Set.Card
import Mathlib.Order.Interval.Finset.Nat
import WorkbookPlan.Proofs.Sheet.Area

/-! Cutting an area into bands of rows. The bands lie one under the other over the full width, from the
first row of the area to its last, so each cell of the area is in just one of them. -/
namespace WorkbookPlan.Sheet.Area

variable {a b whole : Area} {first behind : Nat} {bands : List Area}

/-- Bands as wide as the area, each from the row behind the one before. They go from a row up to the
row in front of another. -/
inductive Stacked (whole : Area) : (first : Nat) → List Area → (behind : Nat) → Prop where
  | nil {row} : Stacked whole row [] row
  | cons {first last behind bands} : first ≤ last → Stacked whole (last + 1) bands behind →
      Stacked whole first ({ whole with startRow := first, endRow := some last } :: bands) behind

/-- The bands lie one under the other, and together they are the area. -/
def TiledBy (whole : Area) (bands : List Area) : Prop :=
  Stacked whole whole.startRow bands (whole.lastRow + 1)

/-- The first area has as many rows as the second, or one more. -/
def AtMostOneTaller (a b : Area) : Prop :=
  ∃ m n, a.rowCount? = some m ∧ b.rowCount? = some n ∧ n ≤ m ∧ m ≤ n + 1

section Stacked

theorem Stacked.le (h : Stacked whole first bands behind) : first ≤ behind := by
  induction h with
  | nil => exact Nat.le_refl _
  | cons hle _ ih => omega

/-- A cell between the two rows is in one band, and any other in none. -/
theorem Stacked.countP_contains (h : Stacked whole first bands behind) (cell : Cell) :
    bands.countP (fun b => b.Contains cell) =
      if whole.startCol ≤ cell.col ∧ cell.col ≤ whole.endCol ∧ first ≤ cell.row ∧ cell.row < behind
      then 1 else 0 := by
  induction h with
  | nil =>
    rw [List.countP_nil, if_neg]
    omega
  | @cons first last behind bands hle hrest ih =>
    have hbehind := hrest.le
    have hhere : ({ whole with startRow := first, endRow := some last } : Area).Contains cell ↔
        whole.startCol ≤ cell.col ∧ cell.col ≤ whole.endCol ∧ first ≤ cell.row ∧ cell.row ≤ last :=
      Iff.rfl
    simp only [List.countP_cons, ih, decide_eq_true_eq, hhere]
    split_ifs <;> omega

/-- Each cell of the area is in just one of the bands, and no other cell is in any. -/
theorem TiledBy.countP_contains (h : whole.TiledBy bands) (cell : Cell) :
    bands.countP (fun b => b.Contains cell) = if whole.Contains cell then 1 else 0 := by
  rw [Stacked.countP_contains h]
  simp only [Contains, Nat.lt_succ_iff]

theorem Stacked.endRow_eq (h : Stacked whole first bands behind) (hb : b ∈ bands) :
    b.endRow = some b.lastRow := by
  induction h with
  | nil => cases hb
  | cons _ _ ih =>
    rcases List.mem_cons.1 hb with rfl | hb
    · rfl
    · exact ih hb

end Stacked

section Cells

/-- The rows times the columns of a bounded area are its cells. -/
theorem cellCount?_eq_ncard (h : a.OnSheet) (hend : a.endRow = some a.lastRow) :
    a.cellCount? = some {cell | a.Contains cell}.ncard := by
  have hcols := h.startCol_le
  have hrows := h.startRow_le
  let places := Finset.Icc a.startCol a.endCol ×ˢ Finset.Icc a.startRow a.lastRow
  have hcells : {cell | a.Contains cell} = (fun p : Nat × Nat => (⟨p.1, p.2⟩ : Cell)) '' places := by
    ext cell
    simp only [places, Contains, Set.mem_ofPred_eq, Set.mem_image, SetLike.mem_coe, Finset.mem_product,
      Finset.mem_Icc, Prod.exists]
    constructor
    · rintro ⟨h₁, h₂, h₃, h₄⟩
      exact ⟨cell.col, cell.row, ⟨⟨h₁, h₂⟩, h₃, h₄⟩, rfl⟩
    · rintro ⟨col, row, ⟨⟨h₁, h₂⟩, h₃, h₄⟩, rfl⟩
      exact ⟨h₁, h₂, h₃, h₄⟩
  have hinjective : Function.Injective fun p : Nat × Nat => (⟨p.1, p.2⟩ : Cell) := by
    rintro ⟨c, r⟩ ⟨c', r'⟩ hsame
    cases hsame
    rfl
  rw [hcells, Set.ncard_image_of_injective _ hinjective, Set.ncard_coe_finset, Finset.card_product,
    Nat.card_Icc, Nat.card_Icc, cellCount?, rowCount?, hend, width]
  have hwidth : a.endCol + 1 - a.startCol = a.endCol - a.startCol + 1 := by omega
  have hheight : a.lastRow + 1 - a.startRow = a.lastRow - a.startRow + 1 := by omega
  rw [hwidth, hheight, Nat.mul_comm]
  rfl

end Cells

section Split

variable {rows start : Nat} {lens : List Nat}

theorem stacked_bands (hpos : ∀ len ∈ lens, 0 < len) :
    Stacked a start (a.bands start lens) (start + lens.sum) := by
  induction lens generalizing start with
  | nil => exact .nil
  | cons len lens ih =>
    have hlen : 0 < len := hpos len List.mem_cons_self
    have hrest : Stacked a (start + len) (a.bands (start + len) lens) (start + len + lens.sum) :=
      ih fun n hn => hpos n (List.mem_cons_of_mem _ hn)
    have hlast : start + len - 1 + 1 = start + len := by omega
    rw [bands, List.sum_cons, ← Nat.add_assoc]
    exact .cons (by omega) (hlast ▸ hrest)

theorem map_rowCount?_bands (hpos : ∀ len ∈ lens, 0 < len) :
    (a.bands start lens).map rowCount? = lens.map some := by
  induction lens generalizing start with
  | nil => rfl
  | cons len lens ih =>
    have hlen : 0 < len := hpos len List.mem_cons_self
    have hcount : start + len - 1 - start + 1 = len := by omega
    rw [bands, List.map_cons, List.map_cons, ih fun n hn => hpos n (List.mem_cons_of_mem _ hn)]
    rw [rowCount?, Option.map_some, hcount]

/-- The longer bands come first, and they are longer by one row. -/
theorem pairwise_bandLengths (rows parts : Nat) :
    (bandLengths rows parts).Pairwise fun m n => n ≤ m ∧ m ≤ n + 1 := by
  refine List.pairwise_append.2 ⟨?_, ?_, fun m hm n hn => ?_⟩
  · exact List.pairwise_replicate.2 (.inr ⟨Nat.le_refl _, Nat.le_succ _⟩)
  · exact List.pairwise_replicate.2 (.inr ⟨Nat.le_refl _, Nat.le_succ _⟩)
  · rw [List.eq_of_mem_replicate hm, List.eq_of_mem_replicate hn]
    exact ⟨Nat.le_succ _, Nat.le_refl _⟩

theorem pairwise_bands (hpos : ∀ len ∈ lens, 0 < len)
    (hlens : lens.Pairwise fun m n => n ≤ m ∧ m ≤ n + 1) :
    (a.bands start lens).Pairwise AtMostOneTaller := by
  have hcounts : ((a.bands start lens).map rowCount?).Pairwise fun x y =>
      ∃ m n, x = some m ∧ y = some n ∧ n ≤ m ∧ m ≤ n + 1 := by
    rw [map_rowCount?_bands hpos, List.pairwise_map]
    exact hlens.imp fun h => ⟨_, _, rfl, rfl, h⟩
  rw [List.pairwise_map] at hcounts
  exact hcounts

/-- The bands make up the area, and the taller ones, by one row at the most, come first. -/
theorem splitRows_spec (ha : a.OnSheet) (hrows : a.rowCount? = some rows) (parts : Nat) :
    (a.splitRows parts).length = min (max parts 1) rows ∧ a.TiledBy (a.splitRows parts) ∧
      (a.splitRows parts).Pairwise AtMostOneTaller := by
  obtain ⟨last, hend, rfl⟩ := Option.map_eq_some_iff.1 hrows
  have hlast : a.lastRow = last := by rw [lastRow, hend, Option.getD_some]
  have hle : a.startRow ≤ last := hlast ▸ ha.startRow_le
  have hsplit : a.splitRows parts = a.bands a.startRow
      (bandLengths (last - a.startRow + 1) (max 1 (min parts (last - a.startRow + 1)))) := by
    rw [splitRows, hrows]
  generalize hcount : max 1 (min parts (last - a.startRow + 1)) = count at hsplit
  have hcountPos : 0 < count := by omega
  have hcountLe : count ≤ last - a.startRow + 1 := by omega
  have hpos : ∀ len ∈ bandLengths (last - a.startRow + 1) count, 0 < len := fun len hlen =>
    pos_of_mem_bandLengths hcountPos hcountLe hlen
  rw [hsplit]
  refine ⟨?_, ?_, pairwise_bands hpos (pairwise_bandLengths _ _)⟩
  · rw [length_bands, length_bandLengths _ hcountPos]
    omega
  · have hbehind : a.startRow + (last - a.startRow + 1) = a.lastRow + 1 := by omega
    have hstacked : Stacked a a.startRow (a.bands a.startRow _) _ := stacked_bands hpos
    rw [sum_bandLengths _ hcountPos, hbehind] at hstacked
    exact hstacked

end Split

end WorkbookPlan.Sheet.Area
