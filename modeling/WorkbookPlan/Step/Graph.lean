import WorkbookPlan.Step.Basic

/-! The dependency graph of a list of steps, by position. -/
namespace WorkbookPlan

/-- For each step the positions of the steps it depends on. -/
structure Graph where
  deps : List (List Nat)
  deriving DecidableEq, Repr

namespace Graph

def lastIndex? (ids : List StepId) (id : StepId) : Option Nat :=
  match ids with
  | [] => none
  | x :: xs =>
    match lastIndex? xs id with
    | some i => some (i + 1)
    | none => if x = id then some 0 else none

/-- A dependency on a step that is not in the list is no edge. -/
def ofSteps (steps : List Step) : Graph :=
  let ids := steps.map (·.id)
  ⟨steps.map fun s => s.dependsOn.filterMap (lastIndex? ids)⟩

def size (g : Graph) : Nat :=
  g.deps.length

def nodes (g : Graph) : List Nat :=
  List.range g.size

def depsOf (g : Graph) (i : Nat) : List Nat :=
  g.deps.getD i []

/-- The nodes of `rest` that depend on none of `rest`. -/
def free (g : Graph) (rest : List Nat) : List Nat :=
  rest.filter fun i => (g.depsOf i).all (!rest.contains ·)

def bound (g : Graph) (rest : List Nat) : List Nat :=
  let free := g.free rest
  rest.filter (!free.contains ·)

theorem length_bound_lt {g : Graph} {rest : List Nat} (h : g.free rest ≠ []) :
    (g.bound rest).length < rest.length := by
  obtain ⟨i, hi⟩ := List.exists_mem_of_ne_nil _ h
  exact List.length_filter_lt_length_iff_exists.2
    ⟨i, (List.mem_filter.1 hi).1, by simp [hi]⟩

/-- Take away free nodes, layer by layer; the nodes left over depend on a cycle. -/
def peel (g : Graph) (rest : List Nat) : List (List Nat) × List Nat :=
  if _h : g.free rest = [] then ([], rest)
  else
    let (layers, stuck) := g.peel (g.bound rest)
    (g.free rest :: layers, stuck)
termination_by rest.length
decreasing_by exact length_bound_lt _h

/-- The nodes by depth: each depends only on nodes of the layers before its own. -/
def layers (g : Graph) : List (List Nat) :=
  (g.peel g.nodes).1

/-- The nodes on a cycle or depending on one, in order. -/
def stuck (g : Graph) : List Nat :=
  (g.peel g.nodes).2

/-- Add what the nodes found so far depend on, for a number of rounds. -/
def closure (g : Graph) : Nat → List Nat → List Nat
  | 0, seen => seen
  | rounds + 1, seen =>
    let new := ((seen.flatMap g.depsOf).filter (!seen.contains ·)).eraseDups
    if new.isEmpty then seen else g.closure rounds (seen ++ new)

def ancestors (g : Graph) (i : Nat) : List Nat :=
  g.closure g.size (g.depsOf i).eraseDups

end Graph

end WorkbookPlan
