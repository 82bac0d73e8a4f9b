import WorkbookPlan.Sheet.Area
import WorkbookPlan.Step.Exchange
import WorkbookPlan.Step.Graph

/-! What steps write, which writes get into each other's way, and which steps may run at the same
time. -/
namespace WorkbookPlan

inductive WriteArea where
  | wholeSheet
  | cells (a : Sheet.Area)
  deriving DecidableEq, Repr

def WriteArea.overlaps : WriteArea → WriteArea → Bool
  | cells a, cells b => a.overlaps b
  | _, _ => true

/-- Two writes on one sheet that touch the same cells in no fixed order. -/
structure Clash where
  sheet : String
  first : StepId
  second : StepId
  deriving DecidableEq, Repr

instance : Wire Clash where
  encode c := .object
    [("sheet", encode c.sheet), ("first", encode c.first), ("second", encode c.second)]
  decode? j := do
    let parts ← j.parts? ["sheet", "first", "second"]
    let sheet ← required parts decode? "sheet"
    let first ← required parts decode? "first"
    let second ← required parts decode? "second"
    some { sheet, first, second }

namespace Step

/-- The range that a write step names: its parameter, else its preview. -/
def writtenRange (s : Step) : String :=
  (s.param? "range" <|> s.preview.map (·.affectedRange)).getD ""

/-- The sheet and the part of it that a write step touches; the whole sheet if no range can be read.
A step that writes nothing, or on no sheet, has none. -/
def footprint? (s : Step) : Option (String × WriteArea) :=
  if s.isWrite then
    s.sheet?.map fun sheet =>
      match Sheet.Area.parse (Sheet.localPart s.writtenRange) with
      | .ok a => (sheet, .cells a)
      | .error _ => (sheet, .wholeSheet)
  else none

def collides (s t : Step) : Bool :=
  match s.footprint?, t.footprint? with
  | some (sheet, area), some (sheet', area') => sheet == sheet' && area.overlaps area'
  | _, _ => false

end Step

namespace Writes

/-- The clash of two steps at given positions, if neither depends on the other. -/
def clash? (g : Graph) (i j : Nat) (s t : Step) : Option Clash :=
  if s.collides t && !(g.ancestors i).contains j && !(g.ancestors j).contains i then
    s.footprint?.map fun (sheet, _) => ⟨sheet, s.id, t.id⟩
  else none

/-- The clashes of each step with the steps behind it. -/
def clashesFrom (g : Graph) : List (Step × Nat) → List Clash
  | [] => []
  | (s, i) :: rest => rest.filterMap (fun (t, j) => clash? g i j s t) ++ clashesFrom g rest

/-- All clashes, by the positions of the two steps. -/
def clashes (steps : List Step) : List Clash :=
  clashesFrom (.ofSteps steps) steps.zipIdx

def putInGroup {α : Type _} (against : α → α → Bool) (x : α) : List (List α) → List (List α)
  | [] => [[x]]
  | g :: gs => if g.all (!against x ·) then (g ++ [x]) :: gs else g :: putInGroup against x gs

/-- Groups whose members have nothing against each other. -/
def groups {α : Type _} (against : α → α → Bool) (xs : List α) : List (List α) :=
  xs.foldl (fun gs x => putInGroup against x gs) []

/-- Steps that may run at the same time, batch by batch. Steps that depend on a cycle come last, one
by one. -/
def batches (steps : List Step) : List (List StepId) :=
  let g := Graph.ofSteps steps
  let at? (i : Nat) : Option Step := steps[i]?
  let layered := g.layers.flatMap fun layer =>
    (groups Step.collides (layer.filterMap at?)).map (·.map (·.id))
  layered ++ (g.stuck.filterMap at?).map fun s => [s.id]

end Writes

end WorkbookPlan
