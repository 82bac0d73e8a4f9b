import Mathlib.Logic.Relation
import WorkbookPlan.Plan.Run
import WorkbookPlan.Proofs.Plan.Marking
import WorkbookPlan.Proofs.Repair.Patch

/-! A run as a sequence of moves of its plan: a round of skipping, a step done, a step repaired, and
one of two ways to come to an end. -/
namespace WorkbookPlan

open Step Relation

namespace Plan

def skipWhere (p : Plan) (which : Step → Bool) : Plan :=
  { p with steps := markWhere .skipped which p.steps }

def skipRound (p : Plan) : Plan :=
  p.skipWhere fun s => s.isPending && p.isDoomed s

/-- Give up a step and append the steps of its repair. -/
def repaired (p : Plan) (failed : Step) (r : Repair) : Plan :=
  { (p.fail failed.id).extend failed.id r.newSteps r.replacement with phase := .executing }

def finished (p : Plan) : Plan :=
  let q := p.skipWhere (·.isPending)
  { q with phase := if q.hasOpenFailure then .failed else .completed }

def aborted (p : Plan) (failed : Step) : Plan :=
  { p.fail failed.id with phase := .failed }

/-- What a run does with its plan between two decisions. The report on a step is left open. -/
inductive Move (settings : Settings) (tokens : Nat → String) (p : Plan) : Plan → Prop where
  | skip : p.doomed ≠ [] → Move settings tokens p p.skipRound
  | complete {s} : p.doomed = [] → p.nextReady? = some s → Move settings tokens p (p.complete s.id)
  | repair {s error context} : p.doomed = [] → p.nextReady? = some s →
      context.count = p.repairCount → p.repairCount < settings.maxRepairs →
      Move settings tokens p
        (p.repaired s (.ofStep settings (tokens (p.repairCount + 1)) s error context))

inductive Close (settings : Settings) (p : Plan) : Plan → Prop where
  | finish : p.doomed = [] → p.nextReady? = none → Close settings p p.finished
  | abort {s} : p.doomed = [] → p.nextReady? = some s → settings.maxRepairs ≤ p.repairCount →
      Close settings p (p.aborted s)

abbrev Reaches (settings : Settings) (tokens : Nat → String) : Plan → Plan → Prop :=
  ReflTransGen (Move settings tokens)

@[simp] theorem ids_skipWhere (p : Plan) (which : Step → Bool) : (p.skipWhere which).ids = p.ids :=
  map_id_markWhere

theorem mem_doomed {p : Plan} {s : Step} :
    s ∈ p.doomed ↔ s ∈ p.steps ∧ s.isPending = true ∧ p.isDoomed s = true := by
  simp [doomed]

theorem nextReady?_eq_some {p : Plan} {s : Step} (h : p.nextReady? = some s) :
    s ∈ p.steps ∧ s.isPending = true ∧ p.isReady s = true := by
  have hs := List.find?_some h
  simp only [Bool.and_eq_true] at hs
  exact ⟨List.mem_of_find?_eq_some h, hs⟩

@[simp] theorem repairCount_markRunning (p : Plan) (id : StepId) :
    (p.markRunning id).repairCount = p.repairCount := by
  unfold markRunning
  split <;> rfl

@[simp] theorem repairCount_fail (p : Plan) (id : StepId) :
    (p.fail id).repairCount = p.repairCount :=
  (mark_eq_of_note Plan.repairCount rfl).trans (repairCount_markRunning p id)

end Plan

/-- The run that a turn leads to, unless it is lost. -/
def Turn.run? {σ : Type _} : Turn σ → Option (Run σ)
  | .again r => some r
  | .ended r => some r
  | .lost _ => none

namespace Run

variable {σ : Type _} {settings : Settings} {tokens : Nat → String} {execute : Executor σ}

def skipWhere (r : Run σ) (which : Step → Bool) : Run σ :=
  { r with
    plan := r.plan.skipWhere which
    records := r.records ++ (r.plan.steps.filter which).map .skipped }

def skipRound (r : Run σ) : Run σ :=
  r.skipWhere fun s => s.isPending && r.plan.isDoomed s

theorem foldl_skip (skipped : List Step) (r : Run σ) (hr : r.plan.ids.Nodup) :
    skipped.foldl skip r =
      { r with
        plan := r.plan.skipWhere fun s => (skipped.map (·.id)).contains s.id
        records := r.records ++ skipped.map .skipped } := by
  induction skipped generalizing r with
  | nil =>
    have hnone : markWhere .skipped (fun _ => false) r.plan.steps = r.plan.steps :=
      markWhere_eq_self fun _ _ => rfl
    simp [Plan.skipWhere, hnone]
  | cons s skipped ih =>
    have hfirst : (r.skip s).plan = r.plan.skipWhere (·.id == s.id) := by
      simp only [skip, Plan.markSkipped, Plan.skipWhere]
      rw [Plan.setStatus_eq_markWhere hr]
    rw [List.foldl_cons, ih (r.skip s) (by rwa [hfirst, Plan.ids_skipWhere]), hfirst]
    simp only [skip, Plan.skipWhere, markWhere, List.map_map, List.map_cons, List.append_assoc,
      List.singleton_append]
    congr 2
    refine List.map_congr_left fun t _ => ?_
    by_cases ht : t.id = s.id <;> simp [ht, withStatus]

theorem foldl_skip_filter (r : Run σ) (hr : r.plan.ids.Nodup) (which : Step → Bool) :
    (r.plan.steps.filter which).foldl skip r = r.skipWhere which := by
  rw [foldl_skip _ r hr, skipWhere, Plan.skipWhere, Plan.skipWhere]
  congr 2
  exact List.map_congr_left fun s hs => by simp only [contains_map_id_filter hr hs]

theorem finish_eq (r : Run σ) (hr : r.plan.ids.Nodup) : r.finish =
    { r with
      plan := r.plan.finished
      records := r.records ++ r.plan.pending.map .skipped } := by
  have hskip := foldl_skip_filter r hr (·.isPending)
  simp only [finish, Plan.pending, hskip]
  rfl

theorem skipRounds_succ (n : Nat) (r : Run σ) (hr : r.plan.ids.Nodup) :
    skipRounds (n + 1) r = if r.plan.doomed = [] then r else skipRounds n r.skipRound := by
  have hround : r.plan.doomed.foldl skip r = r.skipRound := foldl_skip_filter r hr _
  rw [← hround]
  cases h : r.plan.doomed with
  | nil => simp [skipRounds, h]
  | cons s rest => simp [skipRounds, h]

/-- What each round keeps, the rounds keep. -/
theorem skipRounds_induction {P : Run σ → Prop}
    (hround : ∀ r, r.plan.ids.Nodup → r.plan.doomed ≠ [] → P r → P r.skipRound) (n : Nat)
    {r : Run σ} (hr : r.plan.ids.Nodup) (h : P r) : P (skipRounds n r) := by
  induction n generalizing r with
  | zero => exact h
  | succ n ih =>
    rw [skipRounds_succ n r hr]
    split
    · exact h
    · next hdoomed =>
      have hids : r.skipRound.plan.ids = r.plan.ids := Plan.ids_skipWhere ..
      exact ih (hids ▸ hr) (hround r hr hdoomed h)

/-- The rounds of skipping leave the repairs alone. -/
theorem repairs_skipRounds (n : Nat) (r : Run σ) (hr : r.plan.ids.Nodup) :
    (skipRounds n r).repairs = r.repairs ∧
      (skipRounds n r).plan.repairCount = r.plan.repairCount :=
  skipRounds_induction (P := fun q => q.repairs = r.repairs ∧
    q.plan.repairCount = r.plan.repairCount) (fun _ _ _ h => h) n hr ⟨rfl, rfl⟩

theorem ids_skipRounds (n : Nat) (r : Run σ) (hr : r.plan.ids.Nodup) :
    (skipRounds n r).plan.ids = r.plan.ids :=
  skipRounds_induction (P := fun q => q.plan.ids = r.plan.ids)
    (fun _ _ _ h => (Plan.ids_skipWhere ..).trans h) n hr rfl

theorem skipRounds_reaches (n : Nat) (r : Run σ) (hr : r.plan.ids.Nodup) :
    Plan.Reaches settings tokens r.plan (skipRounds n r).plan :=
  skipRounds_induction (P := fun q => Plan.Reaches settings tokens r.plan q.plan)
    (fun _ _ hdoomed h => h.tail (.skip hdoomed)) n hr .refl

/-- Each round takes a step out of the pending ones, so there are enough rounds. -/
theorem doomed_skipRounds (n : Nat) (r : Run σ) (hr : r.plan.ids.Nodup)
    (hn : r.plan.pending.length ≤ n) : (skipRounds n r).plan.doomed = [] := by
  induction n generalizing r with
  | zero =>
    have hpending : r.plan.pending = [] := List.eq_nil_of_length_eq_zero (by omega)
    refine List.eq_nil_iff_forall_not_mem.2 fun s hs => ?_
    obtain ⟨hmem, hp, -⟩ := Plan.mem_doomed.1 hs
    have : s ∈ r.plan.pending := List.mem_filter.2 ⟨hmem, hp⟩
    simp [hpending] at this
  | succ n ih =>
    rw [skipRounds_succ n r hr]
    split
    · next h => exact h
    · next h =>
      have hround : r.skipRound.plan.ids = r.plan.ids := Plan.ids_skipWhere ..
      refine ih r.skipRound (hround ▸ hr) ?_
      have hcount := length_pending_markWhere (show Status.skipped ≠ .pending by decide)
        (fun s (_ : s ∈ r.plan.steps) (hw : (s.isPending && r.plan.isDoomed s) = true) =>
          (Bool.and_eq_true_iff.1 hw).1)
      have hsome : 0 < r.plan.doomed.length := List.length_pos_of_ne_nil h
      simp only [Plan.pending, Plan.doomed, skipRound, skipWhere, Plan.skipWhere] at hn hsome ⊢
      omega

theorem doomed_skipDoomed (r : Run σ) (hr : r.plan.ids.Nodup) : r.skipDoomed.plan.doomed = [] :=
  doomed_skipRounds _ r hr (Nat.le_refl _)

theorem nodup_skipDoomed {r : Run σ} (hr : r.plan.ids.Nodup) : r.skipDoomed.plan.ids.Nodup :=
  (ids_skipRounds _ r hr).symm ▸ hr

theorem repairs_skipDoomed {r : Run σ} (hr : r.plan.ids.Nodup) :
    r.skipDoomed.repairs = r.repairs ∧ r.skipDoomed.plan.repairCount = r.plan.repairCount :=
  repairs_skipRounds _ r hr

theorem skipDoomed_reaches (settings : Settings) (tokens : Nat → String) (r : Run σ)
    (hr : r.plan.ids.Nodup) : Plan.Reaches settings tokens r.plan r.skipDoomed.plan :=
  skipRounds_reaches _ r hr

/-- The repair of a step on a report. -/
def repairOf (settings : Settings) (tokens : Nat → String) (p : Plan) (s : Step) (o : Outcome) :
    Repair :=
  .ofStep settings (tokens (p.repairCount + 1)) s (o.error.getD "") (context (p.fail s.id) o)

theorem count_context (p : Plan) (id : StepId) (o : Outcome) :
    (context (p.fail id) o).count = p.repairCount :=
  Plan.repairCount_fail p id

theorem strategy_repairOf {p : Plan} {s : Step} {o : Outcome} :
    (repairOf settings tokens p s o).strategy = .abort ↔ settings.maxRepairs ≤ p.repairCount := by
  rw [repairOf, Repair.strategy_eq_abort_iff, count_context]

theorem canContinue_repairOf {p : Plan} {s : Step} {o : Outcome} :
    (repairOf settings tokens p s o).canContinue = true ↔ p.repairCount < settings.maxRepairs := by
  rw [repairOf, Repair.canContinue_iff, count_context]

/-- What a turn does behind its rounds of skipping. -/
inductive Acts (settings : Settings) (tokens : Nat → String) (execute : Executor σ) (r : Run σ) :
    Turn σ → Prop where
  | complete {s o kept} : r.plan.nextReady? = some s → execute s r.kept = (o, kept) →
      o.success = true → Acts settings tokens execute r (.again
        { r with
          plan := r.plan.complete s.id
          kept := kept
          records := r.records ++ [.ofOutcome s .completed o] })
  | repair {s o kept} : r.plan.nextReady? = some s → execute s r.kept = (o, kept) →
      o.success = false → r.plan.repairCount < settings.maxRepairs →
      Acts settings tokens execute r (.again
        { plan := r.plan.repaired s (repairOf settings tokens r.plan s o)
          kept := kept
          records := r.records ++ [.ofOutcome s .failed o]
          repairs := r.repairs ++ [repairOf settings tokens r.plan s o] })
  | abort {s o kept} : r.plan.nextReady? = some s → execute s r.kept = (o, kept) →
      o.success = false → settings.maxRepairs ≤ r.plan.repairCount →
      Acts settings tokens execute r (.ended
        { plan := r.plan.aborted s
          kept := kept
          records := r.records ++ [.ofOutcome s .failed o]
          repairs := r.repairs ++ [repairOf settings tokens r.plan s o] })
  | finish : r.plan.nextReady? = none → Acts settings tokens execute r (.ended r.finish)

theorem turn_acts (settings : Settings) (tokens : Nat → String) (execute : Executor σ)
    (r : Run σ) : Acts settings tokens execute r.skipDoomed (r.turn settings tokens execute) := by
  unfold turn
  dsimp only
  split
  · next h => exact .finish h
  · next s h =>
    have hmem : r.skipDoomed.plan.contains s.id = true :=
      Plan.contains_iff.2 (Plan.id_mem_ids (Plan.nextReady?_eq_some h).1)
    rw [if_pos hmem]
    cases he : execute s r.skipDoomed.kept with
    | mk o kept =>
      dsimp only
      split
      · next ho => exact .complete h he ho
      · next ho =>
        have ho : o.success = false := by simpa using ho
        unfold repairStep
        dsimp only
        rw [Plan.repairCount_markRunning]
        split
        · next hc => exact .repair h he ho (canContinue_repairOf.1 hc)
        · next hc =>
          exact .abort h he ho (Nat.le_of_not_lt fun hlt => hc (canContinue_repairOf.2 hlt))

end Run

end WorkbookPlan
