import WorkbookPlan.Proofs.Plan.Chain

/-! What becomes of the steps of a plan in which no more is skipped and nothing is ready. A name that
leads to steps only, and never back to itself, does not wait there; if it is dead, a step has failed
for good. -/
namespace WorkbookPlan.Plan

open Step

/-- Over dependencies and stand-ins the name leads to steps only, and never back to itself. -/
inductive Grounded (p : Plan) : StepId → Prop where
  | intro {id s} : p.step? id = some s → (∀ d ∈ s.dependsOn, Grounded p d) →
      (∀ next, p.supersessions.get? id = some next → Grounded p next) → Grounded p id

/-- What holds of a step between two turns: it was run only when its dependencies were satisfied, and
skipped only when one of them was dead. -/
inductive InOrder (p : Plan) (s : Step) : Prop where
  | pending : s.status = .pending → InOrder p s
  | run : s.status = .completed ∨ s.status = .failed → p.Grounded s.id →
      (∀ d ∈ s.dependsOn, p.dependencyState d = .satisfied) → InOrder p s
  | skipped : s.status = .skipped → (∃ d ∈ s.dependsOn, p.dependencyState d = .dead) → InOrder p s

structure Orderly (p : Plan) : Prop extends Linked p where
  inOrder : ∀ s ∈ p.steps, p.InOrder s
  mem_failed : ∀ id, id ∈ p.failed ↔ ∃ s ∈ p.steps, s.id = id ∧ s.status = .failed

variable {p q : Plan}

theorem Grounded.mem_ids {id : StepId} (h : p.Grounded id) : id ∈ p.ids := by
  obtain ⟨hs, -, -⟩ := h
  obtain ⟨hmem, rfl⟩ := step?_eq_some hs
  exact id_mem_ids hmem

theorem Grounded.congr (hsteps : q.steps = p.steps) (hlinks : q.supersessions = p.supersessions)
    {id : StepId} (h : p.Grounded id) : q.Grounded id := by
  induction h with
  | intro hs _ _ ihdeps ihlink =>
    refine .intro ?_ ihdeps fun next hnext => ihlink next (hlinks ▸ hnext)
    rwa [step?, hsteps]

/-- A name stays grounded if the stand-ins that come in are. -/
theorem Grounded.grows (hg : Grows p q)
    (hlink : ∀ {id s next}, p.step? id = some s → q.supersessions.get? id = some next →
      p.supersessions.get? id = some next ∨
        ((∀ d ∈ s.dependsOn, q.Grounded d) → q.Grounded next))
    {id : StepId} (h : p.Grounded id) : q.Grounded id := by
  induction h with
  | intro hs _ _ ihdeps ihlink =>
    obtain ⟨t, ht, hdeps, -⟩ := hg.step hs
    refine .intro ht (fun d hd => ihdeps d (hdeps ▸ hd)) fun next hnext => ?_
    rcases hlink hs hnext with hold | hnew
    · exact ihlink next hold
    · exact hnew ihdeps

/-- A satisfied name is that of a step that was run. -/
theorem Linked.executed_of_satisfied (hp : p.Linked) {id : StepId}
    (h : p.dependencyState id = .satisfied) :
    ∃ s, p.step? id = some s ∧ (s.status = .completed ∨
      s.status = .failed ∧ (p.supersessions.get? id).isSome) := by
  cases hp.dependencyState_eq_iff.1 h with
  | completed hs hstatus => exact ⟨_, hs, .inl hstatus⟩
  | passed hs _ hnext =>
    obtain ⟨t, ht, hfailed⟩ := hp.failed hnext
    exact ⟨t, ht, .inr ⟨hfailed, by simp [hnext]⟩⟩

theorem InOrder.not_running {s : Step} (h : p.InOrder s) : s.status ≠ .running := by
  cases h with
  | pending h => simp [h]
  | run h => rcases h with h | h <;> simp [h]
  | skipped h => simp [h]

theorem InOrder.of_run {s : Step} (h : p.InOrder s)
    (hstatus : s.status = .completed ∨ s.status = .failed) :
    p.Grounded s.id ∧ ∀ d ∈ s.dependsOn, p.dependencyState d = .satisfied := by
  cases h with
  | pending h => simp [h] at hstatus
  | run _ hgrounded hdeps => exact ⟨hgrounded, hdeps⟩
  | skipped h => simp [h] at hstatus

theorem InOrder.of_skipped {s : Step} (h : p.InOrder s) (hstatus : s.status = .skipped) :
    ∃ d ∈ s.dependsOn, p.dependencyState d = .dead := by
  cases h with
  | pending h => simp [h] at hstatus
  | run h => simp [hstatus] at h
  | skipped _ hdead => exact hdead

/-- Order stays where no dependency changes any more. -/
theorem InOrder.keep {s : Step} (h : p.InOrder s) (hgrounded : p.Grounded s.id → q.Grounded s.id)
    (hdeps : ∀ d ∈ s.dependsOn, p.dependencyState d ≠ .waiting →
      q.dependencyState d = p.dependencyState d) : q.InOrder s := by
  cases h with
  | pending h => exact .pending h
  | run h hid hall =>
    refine .run h (hgrounded hid) fun d hd => ?_
    rw [hdeps d hd (by simp [hall d hd]), hall d hd]
  | skipped h hdead =>
    obtain ⟨d, hd, hstate⟩ := hdead
    exact .skipped h ⟨d, hd, by rw [hdeps d hd (by simp [hstate]), hstate]⟩

theorem Orderly.grounded_of_satisfied (hp : p.Orderly) {id : StepId}
    (h : p.dependencyState id = .satisfied) : p.Grounded id := by
  obtain ⟨s, hs, hstatus⟩ := hp.executed_of_satisfied h
  obtain ⟨hmem, rfl⟩ := step?_eq_some hs
  exact ((hp.inOrder s hmem).of_run (hstatus.imp_right And.left)).1

/-- At the bottom of what is dead lies a step that failed for good. -/
theorem Orderly.exists_failed_of_dead (hp : p.Orderly) {id : StepId} (h : p.Grounded id)
    (hdead : p.dependencyState id = .dead) :
    ∃ s ∈ p.steps, s.status = .failed ∧ p.supersessions.get? s.id = none := by
  induction h with
  | @intro id s hs _ _ ihdeps ihlink =>
    obtain ⟨hmem, rfl⟩ := step?_eq_some hs
    cases hp.dependencyState_eq_iff.1 hdead with
    | missing hnone => simp [hs] at hnone
    | @lost _ t ht hstatus hnone =>
      obtain rfl : s = t := Option.some.inj (hs.symm.trans ht)
      rcases hstatus with hfailed | hskipped
      · exact ⟨s, hmem, hfailed, hnone⟩
      · obtain ⟨d, hd, hddead⟩ := (hp.inOrder s hmem).of_skipped hskipped
        exact ihdeps d hd hddead
    | passed _ _ hnext hrest => exact ihlink _ hnext (hp.dependencyState_eq_iff.2 hrest)

theorem isReady_iff {s : Step} :
    p.isReady s = true ↔ ∀ d ∈ s.dependsOn, p.dependencyState d = .satisfied := by
  simp [isReady]

theorem isDoomed_iff {s : Step} :
    p.isDoomed s = true ↔ ∃ d ∈ s.dependsOn, p.dependencyState d = .dead := by
  simp [isDoomed]

theorem inOrder_of_doomed {s : Step} (h : p.isDoomed s = true) :
    p.InOrder (s.withStatus .skipped) :=
  .skipped rfl (isDoomed_iff.1 h)

theorem Orderly.inOrder_of_ready (hp : p.Orderly) (hd : p.ids.Nodup) {s : Step} {status : Status}
    (hs : s ∈ p.steps) (hpending : s.isPending = true) (hready : p.isReady s = true)
    (hstatus : status = .completed ∨ status = .failed) : p.InOrder (s.withStatus status) := by
  have hdeps := isReady_iff.1 hready
  have hfind := step?_of_mem hd hs
  refine .run hstatus (.intro hfind (fun d hd => hp.grounded_of_satisfied (hdeps d hd)) ?_) hdeps
  intro next hnext
  obtain ⟨t, ht, hfailed⟩ := hp.failed hnext
  obtain rfl : s = t := Option.some.inj (hfind.symm.trans ht)
  simp [isPending, hfailed] at hpending

/-- Nothing is doomed, and nothing is ready. -/
structure Quiet (p : Plan) : Prop where
  not_doomed : p.doomed = []
  not_ready : p.nextReady? = none

namespace Quiet

variable (hq : p.Quiet)

include hq

/-- A pending step waits for something that waits itself. -/
theorem waits {s : Step} (hs : s ∈ p.steps) (hpending : s.status = .pending) :
    ∃ d ∈ s.dependsOn, p.dependencyState d = .waiting := by
  have hp : s.isPending = true := by simp [isPending, hpending]
  have hready : p.isReady s ≠ true := by
    have hnone := List.find?_eq_none.1 hq.not_ready s hs
    simpa [hp] using hnone
  have hdoomed : p.isDoomed s ≠ true := fun h => by
    have hmem : s ∈ p.doomed := List.mem_filter.2 ⟨hs, by simp [hp, h]⟩
    simp [hq.not_doomed] at hmem
  rw [ne_eq, isReady_iff] at hready
  rw [ne_eq, isDoomed_iff] at hdoomed
  push Not at hready hdoomed
  obtain ⟨d, hd, hne⟩ := hready
  have hcases := p.dependencyState_cases d
  exact ⟨d, hd, (hcases.resolve_left hne).resolve_right (hdoomed d hd)⟩

theorem not_waiting (hp : p.Orderly) {id : StepId} (h : p.Grounded id) :
    p.dependencyState id ≠ .waiting := by
  induction h with
  | @intro id s hs _ _ ihdeps ihlink =>
    obtain ⟨hmem, -⟩ := step?_eq_some hs
    intro hwaiting
    cases hp.dependencyState_eq_iff.1 hwaiting with
    | @waiting _ t ht hstatus =>
      obtain rfl : s = t := Option.some.inj (hs.symm.trans ht)
      rcases hstatus with hpending | hrunning
      · obtain ⟨d, hd, hdwaits⟩ := hq.waits hmem hpending
        exact ihdeps d hd hdwaits
      · exact (hp.inOrder s hmem).not_running hrunning
    | passed _ _ hnext hrest => exact ihlink _ hnext (hp.dependencyState_eq_iff.2 hrest)

theorem not_pending (hp : p.Orderly) (hd : p.ids.Nodup) {s : Step} (hs : s ∈ p.steps)
    (h : p.Grounded s.id) : s.status ≠ .pending := fun hpending =>
  hq.not_waiting hp h
    (hp.dependencyState_eq_iff.2 (.waiting (step?_of_mem hd hs) (.inl hpending)))

end Quiet

end WorkbookPlan.Plan
