import WorkbookPlan.Step.Graph
import WorkbookPlan.Verdict.Basic

/-! Checks on the dependencies between steps. -/
namespace WorkbookPlan

structure StructureReport where
  missing : List Dangling := []
  duplicates : List StepId := []
  /-- The steps that depend on a cycle, together. -/
  cycles : List (List String) := []
  deriving DecidableEq, Repr

namespace StructureReport

/-- The steps that depend on a cycle, in order. -/
def stuckIds? (steps : List Step) : Option (List String) :=
  match (Graph.ofSteps steps).stuck.filterMap fun i => steps[i]?.map (·.id) with
  | [] => none
  | ids => some ids

/-- The names that occur again, each once, in the order of their second occurrences. -/
def repeated : List StepId → List StepId → List StepId
  | _, [] => []
  | seen, id :: ids =>
    if seen.contains id then id :: (repeated seen ids).filter (· != id)
    else repeated (id :: seen) ids

/-- Every dependency on a step that is not in the list. -/
def dangling (steps : List Step) : List Dangling :=
  let ids := steps.map (·.id)
  steps.flatMap fun s => (s.dependsOn.filter (!ids.contains ·)).map (⟨s.id, ·⟩)

def ofSteps (steps : List Step) : StructureReport where
  missing := dangling steps
  duplicates := repeated [] (steps.map (·.id))
  cycles := (stuckIds? steps).toList

end StructureReport

end WorkbookPlan
