import WorkbookPlan.Keyed
import WorkbookPlan.Owners
import WorkbookPlan.Step.Basic
import WorkbookPlan.Verdict.Basic

/-! Plans: steps with the bookkeeping of their execution. A plan is extended, never rewritten: steps
are appended, and only their states change. -/
namespace WorkbookPlan

inductive Phase where
  | awaitingClarification
  | ready
  | executing
  | repairing
  | completed
  | failed
  deriving DecidableEq, Repr

def Phase.isOver : Phase → Bool
  | completed | failed => true
  | _ => false

/-- How far a dependency is from being satisfied. -/
inductive DependencyState where
  | satisfied
  | waiting
  /-- Failed or skipped, and nothing stands in for it. -/
  | dead
  deriving DecidableEq, Repr

structure Plan where
  task : String
  taskKind : String
  steps : List Step := []
  /-- What has to hold of the whole workbook. -/
  expectations : List Expectation := []
  verdict : Verdict := {}
  risks : List Risk := []
  owners : Owners := .empty
  /-- The position of the step that was started last. -/
  current : Nat := 0
  completed : List StepId := []
  failed : List StepId := []
  phase : Phase := .ready
  repairCount : Nat := 0
  /-- Which step stands in for a failed one. -/
  supersessions : KeyedMap StepId := .empty
  needsClarification : Bool := false
  question : Option String := none
  deriving DecidableEq, Repr

namespace Plan

def ofSteps (task taskKind : String) (steps : List Step) : Plan :=
  { task, taskKind, steps }

def asking (task taskKind question : String) : Plan :=
  { task, taskKind, phase := .awaitingClarification, needsClarification := true
    question := some question }

/-- The first step of a name. All changes of state go to it. -/
def step? (p : Plan) (id : StepId) : Option Step :=
  p.steps.find? (·.id == id)

def index? (p : Plan) (id : StepId) : Option Nat :=
  p.steps.findIdx? (·.id == id)

def contains (p : Plan) (id : StepId) : Bool :=
  (p.index? id).isSome

/-- Set the state of the first step of a name. -/
def setStatus (id : StepId) (status : Status) : List Step → List Step
  | [] => []
  | s :: rest =>
    if s.id = id then { s with status := status } :: rest else s :: setStatus id status rest

def insertOnce (ids : List StepId) (id : StepId) : List StepId :=
  if ids.contains id then ids else ids ++ [id]

/-- Start a step. The plan stays as it is if it has no such step. -/
def markRunning (p : Plan) (id : StepId) : Plan :=
  match p.index? id with
  | none => p
  | some i =>
    { p with
      steps := setStatus id .running p.steps
      current := i
      phase := .executing }

/-- Set the state of a step and note it, if the plan has the step. -/
def mark (p : Plan) (id : StepId) (status : Status) (note : Plan → Plan) : Plan :=
  if p.contains id then note { p with steps := setStatus id status p.steps } else p

def markCompleted (p : Plan) (id : StepId) : Plan :=
  p.mark id .completed fun q => { q with completed := insertOnce q.completed id }

def markFailed (p : Plan) (id : StepId) : Plan :=
  p.mark id .failed fun q => { q with failed := insertOnce q.failed id }

def markSkipped (p : Plan) (id : StepId) : Plan :=
  { p with steps := setStatus id .skipped p.steps }

/-- The state of the step at the end of the chain of supersessions, followed for so many steps. -/
def stateWithin (p : Plan) : Nat → StepId → DependencyState
  | 0, _ => .dead
  | n + 1, id =>
    match p.step? id with
    | none => .dead
    | some s =>
      match s.status with
      | .completed => .satisfied
      | .pending | .running => .waiting
      | .failed | .skipped =>
        match p.supersessions.get? id with
        | none => .dead
        | some next => p.stateWithin n next

/-- A step that stands in for another is behind it, so no chain is longer than the list of steps. -/
def dependencyState (p : Plan) (id : StepId) : DependencyState :=
  p.stateWithin (p.steps.length + 1) id

def isReady (p : Plan) (s : Step) : Bool :=
  s.dependsOn.all (p.dependencyState · == .satisfied)

def isDoomed (p : Plan) (s : Step) : Bool :=
  s.dependsOn.any (p.dependencyState · == .dead)

def nextReady? (p : Plan) : Option Step :=
  p.steps.find? fun s => s.isPending && p.isReady s

/-- The pending steps that will never be ready. -/
def doomed (p : Plan) : List Step :=
  p.steps.filter fun s => s.isPending && p.isDoomed s

def pending (p : Plan) : List Step :=
  p.steps.filter (·.isPending)

def lastOrder (p : Plan) : Nat :=
  (p.steps.map (·.order)).foldl max 0

/-- The place behind a place, in 32 bits. -/
def placeBehind (order : Nat) : Nat :=
  (order + 1) % UInt32.size

/-- Steps as pending ones, from a place on. -/
def renumber : Nat → List Step → List Step
  | _, [] => []
  | order, s :: rest =>
    { s with order := order, status := .pending } :: renumber (placeBehind order) rest

/-- Append the steps of a repair. One of them may stand in for the failed step from then on. -/
def extend (p : Plan) (failed : StepId) (steps : List Step) (replacement : Option StepId) : Plan :=
  let ids := steps.map (·.id)
  { p with
    steps := p.steps ++ renumber (placeBehind p.lastOrder) steps
    supersessions :=
      match replacement.filter (ids.contains ·) with
      | none => p.supersessions
      | some r => p.supersessions.insert failed r
    repairCount := p.repairCount + 1 }

def isFinished (p : Plan) : Bool :=
  p.steps.all (·.status.isTerminal)

/-- Some failed step has no completed stand-in. -/
def hasOpenFailure (p : Plan) : Bool :=
  p.failed.any (p.dependencyState · != .satisfied)

end Plan

end WorkbookPlan
