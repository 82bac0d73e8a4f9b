import WorkbookPlan.Sheet.Cell

/-! Rectangles of cells. The last row may be left open, and then reaches to the end of the sheet. -/
namespace WorkbookPlan.Sheet

/-- Columns and rows from start to end, both ends included. -/
structure Area where
  startCol : Nat
  endCol : Nat
  startRow : Nat
  /-- Without it the area is open. -/
  endRow : Option Nat
  deriving DecidableEq, Repr

namespace Area

/-- The rectangle with two given corners, in any order. -/
def ofCorners (a b : Cell) : Area :=
  ⟨min a.col b.col, max a.col b.col, min a.row b.row, some (max a.row b.row)⟩

/-- One column from a row to the end of the sheet. -/
def columnFrom (col row : Nat) : Area :=
  ⟨col, col, row, none⟩

/-- One row over the first `width` columns, at least the first. -/
def rowSpan (row width : Nat) : Area :=
  ofCorners ⟨0, row⟩ ⟨width - 1, row⟩

/-- The rows of a reference with a colon. Only the end may lack its row. -/
def rowBounds? : Option Nat → Option Nat → Option (Nat × Option Nat)
  | some a, some b => some (min a b, some (max a b))
  | some a, none => some (a, none)
  | none, none => some (1, none)
  | none, some _ => none

/-- A reference whose sheet part is cut off already. -/
def readLocal (cs : List Char) : Except ReferenceError Area := do
  let cs := Text.trim cs
  if cs.isEmpty then .error .empty
  else match Text.cutFirst? ':' cs with
    | none => do
      let cell ← Cell.read cs
      .ok (ofCorners cell cell)
    | some (left, right) => do
      let (c₁, r₁) ← readPart (Text.trim left)
      let (c₂, r₂) ← readPart (Text.trim right)
      match rowBounds? r₁ r₂ with
      | some (startRow, endRow) => .ok ⟨min c₁ c₂, max c₁ c₂, startRow, endRow⟩
      | none => .error (.malformed (String.ofList cs))

/-- A cell, two parts with a colon between them, and a sheet with an exclamation mark in front of
either. -/
def read (cs : List Char) : Except ReferenceError Area :=
  readLocal (splitSheet (Text.trim cs)).2

def parse (s : String) : Except ReferenceError Area :=
  read s.toList

def isBounded (a : Area) : Bool :=
  a.endRow.isSome

def width (a : Area) : Nat :=
  a.endCol - a.startCol + 1

def rowCount? (a : Area) : Option Nat :=
  a.endRow.map (· - a.startRow + 1)

def cellCount? (a : Area) : Option Nat :=
  a.rowCount?.map (· * a.width)

/-- The last row; an open area reaches to the end of the sheet. -/
def lastRow (a : Area) : Nat :=
  a.endRow.getD maxRows

def Contains (a : Area) (c : Cell) : Prop :=
  a.startCol ≤ c.col ∧ c.col ≤ a.endCol ∧ a.startRow ≤ c.row ∧ c.row ≤ a.lastRow

instance (a : Area) (c : Cell) : Decidable (a.Contains c) := by
  unfold Contains
  infer_instance

def overlaps (a b : Area) : Bool :=
  a.startCol ≤ b.endCol && b.startCol ≤ a.endCol
    && a.startRow ≤ b.lastRow && b.startRow ≤ a.lastRow

/-- The row counts of `parts` bands of `rows` rows, the longer bands first. -/
def bandLengths (rows parts : Nat) : List Nat :=
  List.replicate (rows % parts) (rows / parts + 1)
    ++ List.replicate (parts - rows % parts) (rows / parts)

/-- Bands of the given row counts, each under the one before. -/
def bands (a : Area) : Nat → List Nat → List Area
  | _, [] => []
  | start, len :: lens =>
    { a with startRow := start, endRow := some (start + len - 1) } :: bands a (start + len) lens

/-- At most `parts` bands of rows, from top to bottom. An open area stays whole. -/
def splitRows (a : Area) (parts : Nat) : List Area :=
  match a.rowCount? with
  | none => [a]
  | some rows => a.bands a.startRow (bandLengths rows (max 1 (min parts rows)))

theorem length_bands (a : Area) (start : Nat) (lens : List Nat) :
    (a.bands start lens).length = lens.length := by
  induction lens generalizing start with
  | nil => rfl
  | cons len lens ih => simp [bands, ih]

theorem length_bandLengths (rows : Nat) {parts : Nat} (h : 0 < parts) :
    (bandLengths rows parts).length = parts := by
  have hrest : rows % parts < parts := Nat.mod_lt _ h
  simp only [bandLengths, List.length_append, List.length_replicate]
  omega

theorem length_splitRows_le (a : Area) (parts : Nat) :
    (a.splitRows parts).length ≤ max 1 parts := by
  unfold splitRows
  split
  · exact Nat.le_max_left 1 parts
  · rw [length_bands, length_bandLengths _ (by omega)]
    omega

def text (a : Area) : String :=
  let c₁ := Column.name a.startCol
  let c₂ := Column.name a.endCol
  match a.endRow with
  | some last =>
    if a.startCol = a.endCol ∧ a.startRow = last then c₁ ++ toString last
    else c₁ ++ toString a.startRow ++ ":" ++ c₂ ++ toString last
  | none =>
    if a.startRow = 1 then c₁ ++ ":" ++ c₂
    else c₁ ++ toString a.startRow ++ ":" ++ c₂

end Area

end WorkbookPlan.Sheet
