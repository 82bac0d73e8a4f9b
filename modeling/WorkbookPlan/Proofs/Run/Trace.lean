import WorkbookPlan.Proofs.Run.Tidy

/-! The course of a run: its turns, the steps it hands to the executor, and the plans on which it
decides. -/
namespace WorkbookPlan

open Relation

/-- The executor that besides keeps what it was handed. -/
def Executor.recording {σ : Type _} (execute : Executor σ) : Executor (σ × List Step) :=
  fun s (kept, calls) =>
    let (o, kept) := execute s kept
    (o, kept, calls ++ [s])

namespace Run

variable {σ : Type _}

/-- The runs at the beginnings of the turns. -/
def starts (settings : Settings) (tokens : Nat → String) (execute : Executor σ) :
    Nat → Run σ → List (Run σ)
  | 0, _ => []
  | n + 1, r =>
    r :: match r.turn settings tokens execute with
      | .again r' => starts settings tokens execute n r'
      | .ended _ | .lost _ => []

/-- The plans that the rounds of skipping start from, and the one that they leave. -/
def roundPlans : Nat → Run σ → List Plan
  | 0, r => [r.plan]
  | n + 1, r =>
    match r.plan.doomed with
    | [] => [r.plan]
    | doomed => r.plan :: roundPlans n (doomed.foldl skip r)

/-- The plans on which a turn decides. -/
def decisions (r : Run σ) : List Plan :=
  r.roundPlans r.plan.pending.length

/-- The step that a turn hands to the executor, with the plan at that moment. -/
def handover? (r : Run σ) : Option (Plan × Step) :=
  r.skipDoomed.plan.nextReady?.map fun s => (r.skipDoomed.plan, s)

def states (r : Run σ) : List (StepId × Status) :=
  r.plan.steps.map fun s => (s.id, s.status)

def log (r : Run σ) : List (StepId × Status) :=
  r.records.map fun x => (x.stepId, x.status)

/-- The run of an executor that keeps its calls besides. -/
def withCalls (r : Run σ) (calls : List Step) : Run (σ × List Step) where
  plan := r.plan
  kept := (r.kept, calls)
  records := r.records
  repairs := r.repairs

end Run

namespace Plan

variable {σ : Type _} (settings : Settings) (tokens : Nat → String) (execute : Executor σ)
  (spare : Nat) (kept : σ) (p : Plan)

def opened : Run σ where
  plan := { p with phase := .executing }
  kept := kept

/-- The runs at the beginnings of the turns of `run`. -/
def starts : List (Run σ) :=
  match p.refusal? with
  | some _ => []
  | none => (p.opened kept).starts settings tokens execute (p.maxTurns settings + spare)

/-- What `run` hands to the executor, in order, each with the plan at that moment. -/
def handovers : List (Plan × Step) :=
  (p.starts settings tokens execute spare kept).filterMap Run.handover?

/-- The plans on which `run` decides, in order, and the plan that it leaves. -/
def course : List Plan :=
  (p.starts settings tokens execute spare kept).flatMap Run.decisions ++
    match p.run settings tokens execute spare kept with
    | some (.ok r) => [r.plan]
    | _ => []

section Opened

variable {settings tokens execute spare kept p}

theorem tidy_opened (hp : p.Tidy tokens) : (p.opened kept).plan.Tidy tokens :=
  hp.of_ids_eq rfl rfl

theorem run_eq_turns (hp : p.refusal? = none) : p.run settings tokens execute spare kept =
    (p.opened kept).turns settings tokens execute (p.maxTurns settings + spare) := by
  simp only [run, hp]
  rfl

theorem starts_eq (hp : p.refusal? = none) : p.starts settings tokens execute spare kept =
    (p.opened kept).starts settings tokens execute (p.maxTurns settings + spare) := by
  simp only [starts, hp]

end Opened

/-- What is computed from the result of a run holds of the run that is returned. -/
theorem value_of_run {σ α : Type _} {result : Option (Except RunError (Run σ))} {r : Run σ}
    (hrun : result = some (.ok r)) (f : Run σ → α) {a : α}
    (h : (result.bind Except.toOption).map f = some a) : f r = a := by
  rw [hrun] at h
  exact Option.some.inj h

end Plan

namespace Run

variable {σ : Type _} {settings : Settings} {tokens : Nat → String} {execute : Executor σ}

theorem handover?_eq_some {r : Run σ} {h : Plan × Step} (hr : r.handover? = some h) :
    h.1 = r.skipDoomed.plan ∧ r.skipDoomed.plan.nextReady? = some h.2 := by
  obtain ⟨s, hs, rfl⟩ := Option.map_eq_some_iff.1 hr
  exact ⟨rfl, hs⟩

theorem foldl_skip_withCalls (skipped : List Step) (r : Run σ) (calls : List Step) :
    skipped.foldl skip (r.withCalls calls) = (skipped.foldl skip r).withCalls calls := by
  induction skipped generalizing r with
  | nil => rfl
  | cons s skipped ih => exact ih (r.skip s)

theorem skipRounds_withCalls (n : Nat) (r : Run σ) (calls : List Step) :
    skipRounds n (r.withCalls calls) = (skipRounds n r).withCalls calls := by
  induction n generalizing r with
  | zero => rfl
  | succ n ih =>
    have hplan : (r.withCalls calls).plan = r.plan := rfl
    simp only [skipRounds, hplan]
    split
    · rfl
    · rw [foldl_skip_withCalls, ih]

theorem finish_withCalls (r : Run σ) (calls : List Step) :
    (r.withCalls calls).finish = r.finish.withCalls calls := by
  have hplan : (r.withCalls calls).plan = r.plan := rfl
  simp only [finish, hplan, foldl_skip_withCalls]
  rfl

/-- Recording the calls changes nothing else. -/
theorem turn_recording (r : Run σ) (calls : List Step) :
    (r.withCalls calls).turn settings tokens execute.recording =
      match r.turn settings tokens execute with
      | .again r' => .again (r'.withCalls (calls ++ (r.handover?.map (·.2)).toList))
      | .ended r' => .ended (r'.withCalls (calls ++ (r.handover?.map (·.2)).toList))
      | .lost id => .lost id := by
  have hskip : (r.withCalls calls).skipDoomed = r.skipDoomed.withCalls calls :=
    skipRounds_withCalls ..
  have hplan : (r.skipDoomed.withCalls calls).plan = r.skipDoomed.plan := rfl
  have hkept : (r.skipDoomed.withCalls calls).kept = (r.skipDoomed.kept, calls) := rfl
  simp only [turn, handover?, hskip, hplan, hkept, Executor.recording]
  cases hs : r.skipDoomed.plan.nextReady? with
  | none => simp [finish_withCalls]
  | some s =>
    dsimp only [Option.map_some, Option.toList_some]
    by_cases hc : r.skipDoomed.plan.contains s.id = true
    · rw [if_pos hc, if_pos hc]
      by_cases ho : (execute s r.skipDoomed.kept).1.success = true
      · rw [if_pos ho, if_pos ho]
        rfl
      · rw [if_neg ho, if_neg ho]
        simp only [repairStep]
        split <;> rfl
    · rw [if_neg hc, if_neg hc]

def Again (settings : Settings) (tokens : Nat → String) (execute : Executor σ) (r r' : Run σ) :
    Prop :=
  r.turn settings tokens execute = .again r'

section Turns

variable {n : Nat} {r r' : Run σ}

theorem turns_of_again (h : Again settings tokens execute r r') :
    r.turns settings tokens execute (n + 1) = r'.turns settings tokens execute n := by
  have hturn : r.turn settings tokens execute = .again r' := h
  rw [turns, hturn]

theorem turns_of_ended (h : r.turn settings tokens execute = .ended r') :
    r.turns settings tokens execute (n + 1) = some (.ok r') := by
  rw [turns, h]

theorem starts_of_again (h : Again settings tokens execute r r') :
    r.starts settings tokens execute (n + 1) = r :: r'.starts settings tokens execute n := by
  have hturn : r.turn settings tokens execute = .again r' := h
  rw [starts, hturn]

theorem starts_of_ended (h : r.turn settings tokens execute = .ended r') :
    r.starts settings tokens execute (n + 1) = [r] := by
  rw [starts, h]

end Turns

/-- The calls of a recording executor are the handovers. -/
theorem turns_recording {n : Nat} {r r' : Run σ} (calls : List Step)
    (h : turns settings tokens execute n r = some (.ok r')) :
    turns settings tokens execute.recording n (r.withCalls calls) = some (.ok (r'.withCalls
      (calls ++ ((r.starts settings tokens execute n).filterMap handover?).map (·.2)))) := by
  induction n generalizing r calls with
  | zero => simp [turns] at h
  | succ n ih =>
    simp only [turns, starts, turn_recording] at h ⊢
    cases ht : r.turn settings tokens execute with
    | again q =>
      rw [ht] at h
      dsimp only at h ⊢
      rw [ih _ h]
      cases hr : r.handover? <;> simp [hr]
    | ended q =>
      rw [ht] at h
      dsimp only at h ⊢
      obtain rfl : q = r' := by simpa using h
      cases hr : r.handover? <;> simp [hr]
    | lost id => simp [ht] at h

theorem mem_starts {n : Nat} {r q : Run σ} (h : q ∈ r.starts settings tokens execute n) :
    ReflTransGen (Again settings tokens execute) r q := by
  induction n generalizing r with
  | zero => simp [starts] at h
  | succ n ih =>
    rw [starts] at h
    rcases List.mem_cons.1 h with rfl | h
    · exact .refl
    · cases ht : r.turn settings tokens execute with
      | again r' =>
        rw [ht] at h
        exact .head ht (ih h)
      | ended | lost => simp [ht] at h

end Run

end WorkbookPlan
