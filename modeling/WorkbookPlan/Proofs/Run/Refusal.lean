import WorkbookPlan.Proofs.Run.Termination

/-! How a run comes to an end. A plan that asks for detail or is over is refused, and stays as it
is. Every other run ends without an error and leaves a plan that is over, so it is refused from then
on. -/
namespace WorkbookPlan

universe u v

/-- The end of a run: the error it reports, if there is one, and what it leaves to the caller. -/
structure Halt (σ : Type u) where
  error : Option RunError
  left : Run σ

/-- What is returned at the end. An error hides what was left. -/
def Halt.result {σ : Type u} (h : Halt σ) : Except RunError (Run σ) :=
  match h.error with
  | none => .ok h.left
  | some e => .error e

namespace Run

variable {σ : Type u} {settings : Settings} {tokens : Nat → String} {execute : Executor σ}
  {r r' : Run σ}

/-- The end within a number of turns. A lost step leaves the plan as the skipping has changed it. -/
def halt? (settings : Settings) (tokens : Nat → String) (execute : Executor σ) :
    Nat → Run σ → Option (Halt σ)
  | 0, _ => none
  | n + 1, r =>
    match r.turn settings tokens execute with
    | .again r' => halt? settings tokens execute n r'
    | .ended r' => some ⟨none, r'⟩
    | .lost id => some ⟨some (.stepNotFound id), r.skipDoomed⟩

theorem turns_eq_map_halt? (n : Nat) (r : Run σ) :
    r.turns settings tokens execute n = (r.halt? settings tokens execute n).map Halt.result := by
  induction n generalizing r with
  | zero => rfl
  | succ n ih =>
    rw [turns, halt?]
    cases r.turn settings tokens execute with
    | again r' => exact ih r'
    | ended r' | lost id => rfl

end Run

namespace Plan

variable {σ : Type u} (settings : Settings) (tokens : Nat → String) (execute : Executor σ)
  (spare : Nat) (kept : σ) (p : Plan)

/-- The end of `run`. A refused plan is left as it was given. -/
def halt? : Option (Halt σ) :=
  match p.refusal? with
  | some e => some ⟨some e, { plan := p, kept := kept }⟩
  | none => (p.opened kept).halt? settings tokens execute (p.maxTurns settings + spare)

theorem run_eq_map_halt? : p.run settings tokens execute spare kept =
    (p.halt? settings tokens execute spare kept).map Halt.result := by
  unfold run halt?
  cases p.refusal? with
  | some e => rfl
  | none => exact Run.turns_eq_map_halt? ..

variable {settings tokens execute spare kept p}

theorem refusal?_isSome_iff : p.refusal?.isSome = true ↔
    p.needsClarification = true ∨ p.phase = .completed ∨ p.phase = .failed := by
  have hover : p.phase.isOver = true ↔ p.phase = .completed ∨ p.phase = .failed := by
    cases p.phase <;> simp [Phase.isOver]
  rw [← hover, refusal?]
  by_cases hasks : p.needsClarification = true
  · simp [hasks]
  · by_cases hphase : p.phase.isOver = true <;> simp [hasks, hphase]

theorem refusal?_ne_stepNotFound (id : StepId) : p.refusal? ≠ some (.stepNotFound id) := by
  unfold refusal?
  split
  · simp
  · split <;> simp

/-- A plan that asks for nothing and is over is refused for its phase. -/
theorem refusal?_of_over (hasks : p.needsClarification = false)
    (hover : p.phase = .completed ∨ p.phase = .failed) :
    p.refusal? = some (.notRunnable p.phase) := by
  have hphase : p.phase.isOver = true := by
    rcases hover with h | h <;> rw [h] <;> rfl
  simp [refusal?, hasks, hphase]

section Asks

theorem needsClarification_markRunning (p : Plan) (id : StepId) :
    (p.markRunning id).needsClarification = p.needsClarification := by
  unfold markRunning
  split <;> rfl

theorem needsClarification_complete (p : Plan) (id : StepId) :
    (p.complete id).needsClarification = p.needsClarification :=
  (mark_eq_of_note needsClarification rfl).trans (needsClarification_markRunning p id)

theorem needsClarification_fail (p : Plan) (id : StepId) :
    (p.fail id).needsClarification = p.needsClarification :=
  (mark_eq_of_note needsClarification rfl).trans (needsClarification_markRunning p id)

end Asks

end Plan

namespace Run

variable {σ : Type u} {settings : Settings} {tokens : Nat → String} {execute : Executor σ}
  {r r' : Run σ}

theorem needsClarification_foldl_skip (skipped : List Step) (r : Run σ) :
    (skipped.foldl skip r).plan.needsClarification = r.plan.needsClarification := by
  induction skipped generalizing r with
  | nil => rfl
  | cons s skipped ih => exact ih (r.skip s)

theorem needsClarification_skipDoomed (r : Run σ) :
    r.skipDoomed.plan.needsClarification = r.plan.needsClarification := by
  unfold skipDoomed
  induction r.plan.pending.length generalizing r with
  | zero => rfl
  | succ n ih =>
    unfold skipRounds
    split
    · rfl
    · exact (ih _).trans (needsClarification_foldl_skip _ r)

/-- No turn makes a plan ask, or stop asking. -/
theorem needsClarification_turn (h : (r.turn settings tokens execute).run? = some r') :
    r'.plan.needsClarification = r.plan.needsClarification := by
  rw [← needsClarification_skipDoomed r]
  have hacts := turn_acts settings tokens execute r
  cases ht : r.turn settings tokens execute with
  | again q =>
    rw [ht] at h hacts
    cases h
    cases hacts with
    | complete => exact Plan.needsClarification_complete _ _
    | repair => exact Plan.needsClarification_fail _ _
  | ended q =>
    rw [ht] at h hacts
    cases h
    cases hacts with
    | abort => exact Plan.needsClarification_fail _ _
    | finish => exact needsClarification_foldl_skip _ _
  | lost id => exact absurd ht (turn_ne_lost r id)

/-- The last turn settles the phase, whatever the plan. -/
theorem over_of_ended (h : r.turn settings tokens execute = .ended r') :
    r'.plan.phase = .completed ∨ r'.plan.phase = .failed := by
  have hacts := turn_acts settings tokens execute r
  rw [h] at hacts
  cases hacts with
  | abort => exact .inr rfl
  | finish =>
    unfold finish
    dsimp only
    split
    · exact .inr rfl
    · exact .inl rfl

/-- A run that has been started ends without an error, and its plan is over then. -/
theorem over_of_halt? {n : Nat} {h : Halt σ} (hh : r.halt? settings tokens execute n = some h) :
    h.error = none ∧ h.left.plan.needsClarification = r.plan.needsClarification ∧
      (h.left.plan.phase = .completed ∨ h.left.plan.phase = .failed) := by
  induction n generalizing r with
  | zero => cases hh
  | succ n ih =>
    unfold halt? at hh
    cases ht : r.turn settings tokens execute with
    | again q =>
      rw [ht] at hh
      obtain ⟨herror, hasks, hover⟩ := ih hh
      have hturn := needsClarification_turn (r := r) (congrArg Turn.run? ht)
      exact ⟨herror, hasks.trans hturn, hover⟩
    | ended q =>
      rw [ht] at hh
      cases hh
      exact ⟨rfl, needsClarification_turn (congrArg Turn.run? ht), over_of_ended ht⟩
    | lost id => exact absurd ht (turn_ne_lost r id)

end Run

namespace Plan

variable {σ : Type u}

/-- A run reports an error just if the plan asks for detail or is over, and leaves that plan as it
was. Any other run leaves a plan that is over. -/
theorem run_refuses_iff (settings : Settings) (tokens : Nat → String) (execute : Executor σ)
    (spare : Nat) (kept : σ) (p : Plan) :
    ((p.needsClarification = true ∨ p.phase = .completed ∨ p.phase = .failed) →
      ∃ e, p.run settings tokens execute spare kept = some (.error e) ∧
        p.halt? settings tokens execute spare kept =
          some ⟨some e, { plan := p, kept := kept }⟩ ∧
        p.handovers settings tokens execute spare kept = []) ∧
    ∀ h, p.halt? settings tokens execute spare kept = some h →
      p.run settings tokens execute spare kept = some h.result ∧
      (h.error.isSome = true ↔
        p.needsClarification = true ∨ p.phase = .completed ∨ p.phase = .failed) ∧
      (∀ id, h.error ≠ some (.stepNotFound id)) ∧
      (h.error = none →
        (h.left.plan.phase = .completed ∨ h.left.plan.phase = .failed) ∧
        ∀ {τ : Type v} (settings' : Settings) (tokens' : Nat → String) (execute' : Executor τ)
          (spare' : Nat) (kept' : τ),
          h.left.plan.halt? settings' tokens' execute' spare' kept' =
            some ⟨some (.notRunnable h.left.plan.phase),
              { plan := h.left.plan, kept := kept' }⟩) := by
  rw [← refusal?_isSome_iff]
  refine ⟨fun hrefused => ?_, fun h hh => ⟨?_, ?_⟩⟩
  · obtain ⟨e, he⟩ := Option.isSome_iff_exists.1 hrefused
    refine ⟨e, by simp only [run, he], by simp only [halt?, he], ?_⟩
    simp only [handovers, starts, he, List.filterMap_nil]
  · rw [run_eq_map_halt?, hh, Option.map_some]
  · unfold halt? at hh
    cases hr : p.refusal? with
    | some e =>
      rw [hr] at hh
      cases hh
      refine ⟨Iff.rfl, fun id hid => ?_, fun hnone => absurd hnone (Option.some_ne_none e)⟩
      exact refusal?_ne_stepNotFound id (hr.trans hid)
    | none =>
      rw [hr] at hh
      obtain ⟨herror, hasks, hover⟩ := Run.over_of_halt? hh
      have hopen : p.needsClarification = false := by
        by_contra hask
        have hsome := refusal?_isSome_iff.2 (.inl (Bool.not_eq_false _ ▸ hask))
        simp [hr] at hsome
      have hrefused : h.left.plan.refusal? = some (.notRunnable h.left.plan.phase) :=
        refusal?_of_over (hasks.trans hopen) hover
      refine ⟨by simp [herror], fun id => by simp [herror], fun _ => ⟨hover, ?_⟩⟩
      intro τ settings' tokens' execute' spare' kept'
      simp only [halt?, hrefused]

def twins : Plan :=
  .ofSteps "" ""
    [{ id := "a", order := 1, stage := .writeData, action := "write" },
      { id := "a", order := 2, stage := .writeData, action := "write" }]

/-- The first step fails and is given up, and no other run changes the plan that is left. A plan
that asks is refused at once. -/
theorem run_refuses_iff_twins :
    (∃ h, twins.halt? { maxRepairs := 0 } (fun _ => "t")
          (fun _ (_ : Unit) => (.failure "", ())) 0 () = some h ∧
        h.error = none ∧ h.left.plan ≠ twins ∧
      h.left.plan.halt? {} (fun _ => "t") (fun _ (_ : Unit) => (.ok .null, ())) 0 () =
        some ⟨some (.notRunnable .failed), { plan := h.left.plan, kept := () }⟩) ∧
    (asking "" "" "?").needsClarification = true ∧
      ∃ e, (asking "" "" "?").run {} (fun _ => "t") (fun _ (_ : Unit) => (.ok .null, ())) 0 () =
        some (.error e) := by
  obtain ⟨-, hends⟩ := run_refuses_iff { maxRepairs := 0 } (fun _ => "t")
    (fun _ (_ : Unit) => (.failure "", ())) 0 () twins
  obtain ⟨hasks, -⟩ := run_refuses_iff.{0, 0} {} (fun _ => "t")
    (fun _ (_ : Unit) => (.ok .null, ())) 0 () (asking "" "" "?")
  refine ⟨⟨_, rfl, rfl, by decide, ?_⟩, rfl, ?_⟩
  · obtain ⟨-, -, -, hover⟩ := hends _ rfl
    exact (hover rfl).2 {} (fun _ => "t") (fun _ (_ : Unit) => (.ok .null, ())) 0 ()
  · obtain ⟨e, hrun, -⟩ := hasks (.inl rfl)
    exact ⟨e, hrun⟩

end Plan

end WorkbookPlan
