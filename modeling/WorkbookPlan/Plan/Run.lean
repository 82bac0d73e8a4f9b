import WorkbookPlan.Json.Printer
import WorkbookPlan.Plan.Exchange
import WorkbookPlan.Plan.Record
import WorkbookPlan.Repair.Basic

/-! Running a plan: turn by turn, what is doomed is skipped, the first ready step is handed to the
executor, and a failed step is repaired by new steps. -/
namespace WorkbookPlan

inductive RunError where
  | needsClarification (question : String)
  | notRunnable (phase : Phase)
  | stepNotFound (id : StepId)
  deriving DecidableEq, Repr

namespace RunError

def phaseTitle : Phase → String
  | .awaitingClarification => "AwaitingClarification"
  | .ready => "Ready"
  | .executing => "Executing"
  | .repairing => "Replanning"
  | .completed => "Completed"
  | .failed => "Failed"

def message : RunError → String
  | needsClarification question => "Plan needs clarification before it can run: " ++ question
  | notRunnable phase => "Plan is not runnable (phase: " ++ phaseTitle phase ++ ")"
  | stepNotFound id => "Step " ++ id ++ " not found in plan"

end RunError

/-- An executor carries out one step and reports. Between steps it keeps what it likes. -/
abbrev Executor (σ : Type _) := Step → σ → Outcome × σ

/-- A run as far as it has come: the plan, what the executor keeps, the log, and the repairs. -/
structure Run (σ : Type _) where
  plan : Plan
  kept : σ
  records : List Record := []
  repairs : List Repair := []

namespace Run

variable {σ : Type _}

def skip (r : Run σ) (s : Step) : Run σ :=
  { r with plan := r.plan.markSkipped s.id, records := r.records ++ [.skipped s] }

/-- Skip the steps that are doomed now, round by round, since a skipped step dooms others. -/
def skipRounds : Nat → Run σ → Run σ
  | 0, r => r
  | n + 1, r =>
    match r.plan.doomed with
    | [] => r
    | doomed => skipRounds n (doomed.foldl skip r)

/-- Each round skips a pending step at least. -/
def skipDoomed (r : Run σ) : Run σ :=
  skipRounds r.plan.pending.length r

def succeed (r : Run σ) (s : Step) (o : Outcome) : Run σ :=
  { r with
    plan := r.plan.markCompleted s.id
    records := r.records ++ [.ofOutcome s .completed o] }

def context (p : Plan) (o : Outcome) : RepairContext where
  count := p.repairCount
  completed := p.completed
  details := o.output.map Json.text

/-- Nothing is ready any more. What is still pending waits for a step that can never run. -/
def finish (r : Run σ) : Run σ :=
  let r := r.plan.pending.foldl skip r
  { r with plan := { r.plan with phase := if r.plan.hasOpenFailure then .failed else .completed } }

end Run

inductive Turn (σ : Type _) where
  | again (r : Run σ)
  | ended (r : Run σ)
  | lost (id : StepId)

namespace Run

variable {σ : Type _}

/-- Take down a step that failed, and append the new steps of its repair; without a repair the run
ends. -/
def repairStep (settings : Settings) (token : String) (r : Run σ) (s : Step) (o : Outcome) :
    Turn σ :=
  let plan := r.plan.markFailed s.id
  let repair := Repair.ofStep settings token s (o.error.getD "") (context plan o)
  let r : Run σ :=
    { r with
      records := r.records ++ [.ofOutcome s .failed o]
      repairs := r.repairs ++ [repair] }
  if repair.canContinue then
    let plan := plan.extend s.id repair.newSteps repair.replacement
    .again { r with plan := { plan with phase := .executing } }
  else .ended { r with plan := { plan with phase := .failed } }

/-- One turn of a run. The token of a repair depends on its number. -/
def turn (settings : Settings) (tokens : Nat → String) (execute : Executor σ) (r : Run σ) :
    Turn σ :=
  let r := r.skipDoomed
  match r.plan.nextReady? with
  | none => .ended r.finish
  | some s =>
    if r.plan.contains s.id then
      let (o, kept) := execute s r.kept
      let r := { r with plan := r.plan.markRunning s.id, kept := kept }
      if o.success then .again (r.succeed s o)
      else repairStep settings (tokens (r.plan.repairCount + 1)) r s o
    else .lost s.id

/-- A number of turns; `none` if the run goes on after them. -/
def turns (settings : Settings) (tokens : Nat → String) (execute : Executor σ) :
    Nat → Run σ → Option (Except RunError (Run σ))
  | 0, _ => none
  | n + 1, r =>
    match r.turn settings tokens execute with
    | .again r => turns settings tokens execute n r
    | .ended r => some (.ok r)
    | .lost id => some (.error (.stepNotFound id))

end Run

namespace Plan

def refusal? (p : Plan) : Option RunError :=
  if p.needsClarification then some (.needsClarification (p.question.getD ""))
  else if p.phase.isOver then some (.notRunnable p.phase)
  else none

/-- Each turn but the last runs a pending step. A repair adds two steps, or as many as a step is cut
into parts. -/
def maxTurns (settings : Settings) (p : Plan) : Nat :=
  p.pending.length + (settings.maxRepairs - p.repairCount) * max 2 settings.splitParts + 1

/-- Run a plan to its end; `none` if it does not come to an end with `spare` turns beyond the bound.
Only a plan in which two steps share a name needs them: states are set on the first of the two, so
the second may be handed out again. -/
def run {σ : Type _} (settings : Settings) (tokens : Nat → String) (execute : Executor σ)
    (spare : Nat) (kept : σ) (p : Plan) : Option (Except RunError (Run σ)) :=
  match p.refusal? with
  | some e => some (.error e)
  | none =>
    Run.turns settings tokens execute (p.maxTurns settings + spare)
      { plan := { p with phase := .executing }, kept := kept }

end Plan

end WorkbookPlan
