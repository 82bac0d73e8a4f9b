import WorkbookPlan.Proofs.Run.Extension
import WorkbookPlan.Proofs.Run.Orderly
import WorkbookPlan.Proofs.Run.Termination
import WorkbookPlan.Proofs.Step.Peel

/-! What the last plan of a run says: which steps are skipped, when the phase is that of a failure,
and what it means that it is not. -/
namespace WorkbookPlan.Plan

open Step Relation

variable {settings : Settings} {tokens : Nat → String} {p q : Plan}

/-- In a list of steps with which nothing is wrong every step is grounded. -/
theorem grounded_of_clean (h : StructureReport.ofSteps p.steps = {})
    (hlink : ∀ a, p.supersessions.get? a = none) {s : Step} (hs : s ∈ p.steps) :
    p.Grounded s.id := by
  obtain ⟨hnodup, hclosed, hstuck⟩ := StructureReport.ofSteps_eq_empty h
  refine Graph.steps_induction (P := p.Grounded) hclosed hstuck (fun t ht ih => ?_) s hs
  refine .intro (step?_of_mem hnodup ht) ih fun next hnext => ?_
  simp [hlink] at hnext

theorem clean_pair : StructureReport.ofSteps pair.steps = {} := by
  decide +kernel

theorem phase_finished (p : Plan) :
    p.finished.phase = if p.finished.hasOpenFailure then .failed else .completed := by
  have hsame : (p.skipWhere (·.isPending)).hasOpenFailure = p.finished.hasOpenFailure := by
    have hstate := dependencyState_congr (p := p.skipWhere (·.isPending)) (q := p.finished) rfl rfl
    simp only [hasOpenFailure, hstate]
    rfl
  rw [← hsame]
  rfl

namespace Quiet

variable (hq : p.Quiet) (hp : p.Orderly) (hd : p.ids.Nodup)

include hq hp hd

/-- To skip what is still pending changes no grounded name. -/
theorem dependencyState_finished {id : StepId} (h : p.Grounded id) :
    p.finished.dependencyState id = p.dependencyState id := by
  have hadvances := advances_finished hd
  exact hadvances.grows.dependencyState_eq hp.toLinked (hadvances.linked_of_linked hp.toLinked)
    (fun _ => h.mem_ids) (hq.not_waiting hp h)

/-- A failure is open when no step was to stand in for it. -/
theorem hasOpenFailure_finished : p.finished.hasOpenFailure = true ↔
    ∃ s ∈ p.steps, s.status = .failed ∧ p.supersessions.get? s.id = none := by
  have hfailed : p.finished.failed = p.failed := rfl
  simp only [hasOpenFailure, hfailed, List.any_eq_true, bne_iff_ne]
  constructor
  · rintro ⟨id, hid, hstate⟩
    obtain ⟨s, hs, rfl, hstatus⟩ := (hp.mem_failed id).1 hid
    have hgrounded := ((hp.inOrder s hs).of_run (.inr hstatus)).1
    rw [hq.dependencyState_finished hp hd hgrounded] at hstate
    have hcases := p.dependencyState_cases s.id
    exact hp.exists_failed_of_dead hgrounded
      ((hcases.resolve_left hstate).resolve_left (hq.not_waiting hp hgrounded))
  · rintro ⟨s, hs, hstatus, hnone⟩
    have hgrounded := ((hp.inOrder s hs).of_run (.inr hstatus)).1
    have hdead : p.dependencyState s.id = .dead :=
      hp.dependencyState_eq_iff.2 (.lost (step?_of_mem hd hs) (.inl hstatus) hnone)
    refine ⟨s.id, (hp.mem_failed s.id).2 ⟨s, hs, rfl, hstatus⟩, ?_⟩
    rw [hq.dependencyState_finished hp hd hgrounded, hdead]
    decide

theorem steps_finished (hall : ∀ s ∈ p.steps, p.Grounded s.id) :
    p.finished.steps = p.steps := by
  refine markWhere_eq_self fun s hs => ?_
  have hdone := hq.not_pending hp hd hs (hall s hs)
  simpa [isPending] using hdone

theorem terminal (hall : ∀ s ∈ p.steps, p.Grounded s.id) {s : Step} (hs : s ∈ p.steps) :
    s.status = .completed ∨ s.status = .failed ∨ s.status = .skipped := by
  cases hp.inOrder s hs with
  | pending hstatus => exact absurd hstatus (hq.not_pending hp hd hs (hall s hs))
  | run hstatus => exact hstatus.imp_right .inl
  | skipped hstatus => exact .inr (.inr hstatus)

theorem skipped_iff (hall : ∀ s ∈ p.steps, p.Grounded s.id) {s : Step} (hs : s ∈ p.steps) :
    s.status = .skipped ↔ ∃ d ∈ s.dependsOn, p.dependencyState d = .dead := by
  refine ⟨(hp.inOrder s hs).of_skipped, fun ⟨d, hdep, hdead⟩ => ?_⟩
  cases hp.inOrder s hs with
  | pending hstatus => exact absurd hstatus (hq.not_pending hp hd hs (hall s hs))
  | run _ _ hdeps => simp [hdeps d hdep] at hdead
  | skipped hstatus => exact hstatus

/-- If all that was done went well in the end, all that is grounded is satisfied. -/
theorem satisfied_of_completed (hphase : p.finished.phase = .completed) {id : StepId}
    (h : p.Grounded id) : p.finished.dependencyState id = .satisfied := by
  have hopen : p.finished.hasOpenFailure ≠ true := fun hopen => by
    rw [phase_finished, if_pos hopen] at hphase
    cases hphase
  have hwaits := hq.not_waiting hp h
  have hlives : p.dependencyState id ≠ .dead := fun hdead =>
    hopen ((hq.hasOpenFailure_finished hp hd).2 (hp.exists_failed_of_dead h hdead))
  rw [hq.dependencyState_finished hp hd h]
  exact (p.dependencyState_cases id).resolve_right fun hrest => hrest.elim hwaits hlives

end Quiet

/-- What is not grounded is never run, so it is skipped in the end. -/
theorem Orderly.skipped_of_not_grounded (hp : p.Orderly) (hd : p.ids.Nodup) {s : Step}
    (hs : s ∈ p.finished.steps) (h : ¬ p.Grounded s.id) : s.status = .skipped := by
  rcases (advances_finished hd).mem_steps.1 hs with ⟨t, -, -, rfl⟩ | ⟨hold, hpending⟩ | hnew
  · rfl
  · cases hp.inOrder s hold with
    | pending hstatus => simp [isPending, hstatus] at hpending
    | run _ hgrounded => exact absurd hgrounded h
    | skipped hstatus => exact hstatus
  · cases hnew

theorem Linked.not_skipped_of_satisfied (hp : p.Linked) (hd : p.ids.Nodup) {s : Step}
    (hs : s ∈ p.steps) (h : p.dependencyState s.id = .satisfied) : s.status ≠ .skipped := by
  obtain ⟨t, ht, hstatus⟩ := hp.executed_of_satisfied h
  rw [step?_of_mem hd hs] at ht
  obtain rfl := Option.some.inj ht
  rcases hstatus with hstatus | ⟨hstatus, -⟩ <;> simp [hstatus]

section Run

variable {σ : Type _} {execute : Executor σ} {spare : Nat} {kept : σ}

/-- A run goes its way to a plan in which nothing is ready, or to one in which a repair gives up. -/
theorem run_closes (settings : Settings) (execute : Executor σ) (spare : Nat) (kept : σ)
    (hp : p.refusal? = none) (ht : p.Tidy tokens) :
    ∃ q r, Reaches settings tokens (p.opened kept).plan q ∧
      p.run settings tokens execute spare kept = some (.ok r) ∧
      (q.Quiet ∧ r.plan = q.finished ∨
        r.plan.phase = .failed ∧ ∃ repair ∈ r.repairs, repair.strategy = .abort) := by
  obtain ⟨q, r, hreach, hended, hrun⟩ := run_ends settings execute spare kept hp ht
  have hopened : (p.opened kept).plan.Tidy tokens := tidy_opened ht
  have hway := Run.reaches_of_again hreach hopened
  have hq : q.plan.ids.Nodup := (hway.tidy hopened).distinct
  refine ⟨q.skipDoomed.plan, r, hway.trans (Run.skipDoomed_reaches settings tokens q hq), hrun, ?_⟩
  rcases Run.turn_ended hended hq with ⟨hnone, hplan, -⟩ | ⟨s, repair, -, -, hplan, hrepairs, ha, -⟩
  · exact .inl ⟨⟨Run.doomed_skipDoomed q hq, hnone⟩, hplan⟩
  · exact .inr ⟨by rw [hplan, aborted], repair, by simp [hrepairs], ha⟩

theorem clear_of_clean (task taskKind : String) {steps : List Step}
    (hclean : StructureReport.ofSteps steps = {}) (hfresh : ∀ s ∈ steps, ¬ Minted tokens 0 s.id) :
    (ofSteps task taskKind steps).Clear tokens := by
  obtain ⟨hnodup, hclosed, -⟩ := StructureReport.ofSteps_eq_empty hclean
  refine ⟨⟨hnodup, fun id hid => ?_⟩, fun s hs d hd => ?_⟩
  · obtain ⟨s, hs, rfl⟩ := mem_ids.1 hid
    exact hfresh s hs
  · obtain ⟨t, ht, rfl⟩ := List.mem_map.1 (hclosed s hs d hd)
    exact hfresh t ht

/-- What holds of the plan that a run of a new one comes to. -/
theorem run_closes_new (settings : Settings) (execute : Executor σ) (spare : Nat) (kept : σ)
    (task taskKind : String) {steps : List Step} (hpending : ∀ s ∈ steps, s.status = .pending)
    (hclear : (ofSteps task taskKind steps).Clear tokens) :
    ∃ (q : Plan) (r : Run σ),
      (ofSteps task taskKind steps).run settings tokens execute spare kept = some (.ok r) ∧
      q.Orderly ∧ q.ids.Nodup ∧
      (∀ id ∈ q.ids, q.Grounded id ↔
        (id ∈ steps.map (·.id) → (ofSteps task taskKind steps).Grounded id)) ∧
      (q.Quiet ∧ r.plan = q.finished ∨
        r.plan.phase = .failed ∧ ∃ repair ∈ r.repairs, repair.strategy = .abort) := by
  obtain ⟨q, r, hreach, hrun, hend⟩ :=
    run_closes settings execute spare kept (p := ofSteps task taskKind steps) rfl hclear.toTidy
  have hopened : ((ofSteps task taskKind steps).opened kept).plan.Clear tokens :=
    clear_opened hclear
  have hnew : ((ofSteps task taskKind steps).opened kept).plan.Orderly :=
    orderly_opened task taskKind hpending
  refine ⟨q, r, hrun, hreach.orderly hnew hopened, (hreach.clear hopened).distinct,
    fun id hid => ⟨fun hgrounded hold => ?_, fun hgrounded => ?_⟩, hend⟩
  · have hevolves := hreach.evolves hopened.toTidy
    exact grounded_opened_iff.1
      (hevolves.grounded_of_grounded hopened (fun _ => rfl) hgrounded hold)
  · rcases hreach.grounded_new hnew hopened hid with hold | hadded
    · have hfirst : ((ofSteps task taskKind steps).opened kept).plan.Grounded id :=
        grounded_opened_iff.2 (hgrounded hold)
      exact hreach.grounded hnew.toLinked hopened.toTidy hfirst
    · exact hadded

/-- A run that does not give up skips just what depends on something dead, and fails just if some
failed step has no stand-in. -/
theorem run_propagates_failures (settings : Settings) (tokens : Nat → String)
    (execute : Executor σ) (spare : Nat) (kept : σ) (task taskKind : String) (steps : List Step)
    (hpending : ∀ s ∈ steps, s.status = .pending) (hclean : StructureReport.ofSteps steps = {})
    (hfresh : ∀ s ∈ steps, ¬ Minted tokens 0 s.id) :
    ∃ r, (ofSteps task taskKind steps).run settings tokens execute spare kept = some (.ok r) ∧
      (ofSteps task taskKind steps).Extends r.plan ∧
      ((∀ repair ∈ r.repairs, repair.strategy ≠ .abort) →
        (∀ s ∈ r.plan.steps,
          s.status = .completed ∨ s.status = .failed ∨ s.status = .skipped) ∧
        (∀ s ∈ r.plan.steps,
          s.status = .skipped ↔ ∃ d ∈ s.dependsOn, r.plan.dependencyState d = .dead) ∧
        (r.plan.phase = .failed ↔
          ∃ s ∈ r.plan.steps, s.status = .failed ∧ r.plan.supersessions.get? s.id = none) ∧
        (r.plan.phase = .failed ∨ r.plan.phase = .completed)) := by
  have hclear := clear_of_clean task taskKind hclean hfresh
  obtain ⟨q, r, hrun, hq, hdistinct, hgrounded, hend⟩ :=
    run_closes_new settings execute spare kept task taskKind hpending hclear
  refine ⟨r, hrun, extends_of_run rfl hclear.toTidy hrun, fun hgoes => ?_⟩
  obtain ⟨hquiet, hplan⟩ : q.Quiet ∧ r.plan = q.finished :=
    hend.resolve_right fun ⟨_, repair, hmem, habort⟩ => hgoes repair hmem habort
  have hall : ∀ s ∈ q.steps, q.Grounded s.id := fun s hs => by
    refine (hgrounded s.id (id_mem_ids hs)).2 fun hold => ?_
    obtain ⟨t, ht, hid⟩ := List.mem_map.1 hold
    exact hid ▸ grounded_of_clean hclean (fun _ => rfl) ht
  have hsteps : q.finished.steps = q.steps := hquiet.steps_finished hq hdistinct hall
  have hstate : ∀ d, q.finished.dependencyState d = q.dependencyState d :=
    dependencyState_congr hsteps rfl
  have hopen := hquiet.hasOpenFailure_finished hq hdistinct
  have hfailed : q.finished.phase = .failed ↔ q.finished.hasOpenFailure = true := by
    rw [phase_finished]
    split <;> simp [*]
  have hover : q.finished.phase = .failed ∨ q.finished.phase = .completed := by
    rw [phase_finished]
    split <;> simp
  rw [hplan]
  simp only [hsteps, hstate]
  exact ⟨fun s => hquiet.terminal hq hdistinct hall,
    fun s => hquiet.skipped_iff hq hdistinct hall, hfailed.trans hopen, hover⟩

/-- The first step fails twice and is cleared away, so the second step is skipped. -/
theorem run_propagates_failures_pair : (StructureReport.ofSteps pair.steps = {} ∧
      (∀ s ∈ pair.steps, s.status = .pending) ∧
      ∀ s ∈ pair.steps, ¬ Minted (fun _ => "t") 0 s.id) ∧
    ∃ r calls, pair.run {} (fun _ => "t") (failing ["a", "r1_t_1"]) 0 () = some (.ok r) ∧
      pair.run {} (fun _ => "t") (failing ["a", "r1_t_1"]).recording 0 ((), []) =
        some (.ok (r.withCalls calls)) ∧
      calls.map (·.id) = ["a", "r1_t_1", "r2_t_1"] ∧ pair.Extends r.plan ∧
      r.states = [("a", .failed), ("b", .skipped), ("r1_t_1", .failed), ("r2_t_1", .completed)] ∧
      r.log = [("a", .failed), ("r1_t_1", .failed), ("b", .skipped), ("r2_t_1", .completed)] ∧
      (∀ repair ∈ r.repairs, repair.strategy ≠ .abort) ∧
      (∀ s ∈ r.plan.steps,
        s.status = .skipped ↔ ∃ d ∈ s.dependsOn, r.plan.dependencyState d = .dead) ∧
      r.plan.phase = .failed := by
  have hpending : ∀ s ∈ pair.steps, s.status = .pending := by decide
  have hfresh : ∀ s ∈ pair.steps, ¬ Minted (fun _ => "t") 0 s.id := fun s hs =>
    (tidy_pair _).fresh s.id (id_mem_ids hs)
  obtain ⟨r, hrun, hextends, hend⟩ := run_propagates_failures {} (fun _ => "t")
    (failing ["a", "r1_t_1"]) 0 () "" "" pair.steps hpending clean_pair hfresh
  have hgoes : r.repairs.all (·.strategy != .abort) = true :=
    value_of_run hrun (fun r => r.repairs.all (·.strategy != .abort)) (by decide +kernel)
  have hgoes : ∀ repair ∈ r.repairs, repair.strategy ≠ .abort := by simpa using hgoes
  obtain ⟨-, hskipped, -⟩ := hend hgoes
  have hstates : r.states =
      [("a", .failed), ("b", .skipped), ("r1_t_1", .failed), ("r2_t_1", .completed)] :=
    value_of_run hrun Run.states (by decide +kernel)
  have hlog : r.log =
      [("a", .failed), ("r1_t_1", .failed), ("b", .skipped), ("r2_t_1", .completed)] :=
    value_of_run hrun Run.log (by decide +kernel)
  have hfailed : r.plan.phase = .failed := value_of_run hrun (·.plan.phase) (by decide +kernel)
  exact ⟨⟨clean_pair, hpending, hfresh⟩, r, _, hrun, run_recording rfl hrun, by decide +kernel,
    hextends, hstates, hlog, hgoes, hskipped, hfailed⟩

/-- A run that ends well has satisfied every step, but for those that lead to a name of no step or
into a cycle. -/
theorem run_completed_satisfies (settings : Settings) (tokens : Nat → String)
    (execute : Executor σ) (spare : Nat) (kept : σ) (task taskKind : String) (steps : List Step)
    (hpending : ∀ s ∈ steps, s.status = .pending)
    (hclear : (ofSteps task taskKind steps).Clear tokens) :
    ∃ r, (ofSteps task taskKind steps).run settings tokens execute spare kept = some (.ok r) ∧
      (ofSteps task taskKind steps).Extends r.plan ∧
      (r.plan.phase = .completed →
        (∀ s ∈ r.plan.steps,
          (s.id ∈ steps.map (·.id) → (ofSteps task taskKind steps).Grounded s.id) →
            r.plan.dependencyState s.id = .satisfied ∧ s.status ≠ .skipped) ∧
        (∀ s ∈ r.plan.steps,
          s.id ∈ steps.map (·.id) → ¬ (ofSteps task taskKind steps).Grounded s.id →
            s.status = .skipped) ∧
        (StructureReport.ofSteps steps = {} → ∀ s ∈ r.plan.steps,
          r.plan.dependencyState s.id = .satisfied ∧ s.status ≠ .skipped)) := by
  obtain ⟨q, r, hrun, hq, hdistinct, hgrounded, hend⟩ := run_closes_new settings execute spare kept
    task taskKind hpending hclear
  refine ⟨r, hrun, extends_of_run rfl hclear.toTidy hrun, fun hphase => ?_⟩
  obtain ⟨hquiet, hplan⟩ : q.Quiet ∧ r.plan = q.finished :=
    hend.resolve_right fun ⟨hfailed, _⟩ => by simp [hfailed] at hphase
  rw [hplan] at hphase ⊢
  have hadvances := advances_finished hdistinct
  have hlinked := hadvances.linked_of_linked hq.toLinked
  have hids : ∀ s ∈ q.finished.steps, s.id ∈ q.ids := fun s hs => by
    rw [← ids_skipWhere q (·.isPending)]
    exact id_mem_ids hs
  have hsatisfied : ∀ s ∈ q.finished.steps,
      (s.id ∈ steps.map (·.id) → (ofSteps task taskKind steps).Grounded s.id) →
        q.finished.dependencyState s.id = .satisfied ∧ s.status ≠ .skipped := fun s hs hs' => by
    have hstate := hquiet.satisfied_of_completed hq hdistinct hphase
      ((hgrounded s.id (hids s hs)).2 hs')
    exact ⟨hstate, hlinked.not_skipped_of_satisfied hadvances.distinct hs hstate⟩
  refine ⟨hsatisfied, fun s hs hold hnot => ?_, fun hclean s hs => hsatisfied s hs fun hold => ?_⟩
  · refine hq.skipped_of_not_grounded hdistinct hs fun hs' => hnot ?_
    exact (hgrounded s.id (hids s hs)).1 hs' hold
  · obtain ⟨t, ht, hid⟩ := List.mem_map.1 hold
    exact hid ▸ grounded_of_clean hclean (fun _ => rfl) ht

/-- The first step fails and is tried again, and the second step waits for that. -/
theorem run_completed_satisfies_pair : ((∀ s ∈ pair.steps, s.status = .pending) ∧
      (ofSteps "" "" pair.steps).Clear fun _ => "t") ∧
    ∃ r calls, pair.run {} (fun _ => "t") (failing ["a"]) 0 () = some (.ok r) ∧
      pair.run {} (fun _ => "t") (failing ["a"]).recording 0 ((), []) =
        some (.ok (r.withCalls calls)) ∧
      calls.map (·.id) = ["a", "r1_t_1", "b"] ∧ pair.Extends r.plan ∧
      r.states = [("a", .failed), ("b", .completed), ("r1_t_1", .completed)] ∧
      r.log = [("a", .failed), ("r1_t_1", .completed), ("b", .completed)] ∧
      r.plan.phase = .completed ∧
      ∀ s ∈ r.plan.steps, r.plan.dependencyState s.id = .satisfied ∧ s.status ≠ .skipped := by
  have hpending : ∀ s ∈ pair.steps, s.status = .pending := by decide
  have hclear : (ofSteps "" "" pair.steps).Clear fun _ => "t" := clear_pair _
  obtain ⟨r, hrun, hextends, hend⟩ := run_completed_satisfies {} (fun _ => "t")
    (failing ["a"]) 0 () "" "" pair.steps hpending hclear
  have hphase : r.plan.phase = .completed := value_of_run hrun (·.plan.phase) (by decide +kernel)
  obtain ⟨-, -, hsatisfied⟩ := hend hphase
  have hstates : r.states = [("a", .failed), ("b", .completed), ("r1_t_1", .completed)] :=
    value_of_run hrun Run.states (by decide +kernel)
  have hlog : r.log = [("a", .failed), ("r1_t_1", .completed), ("b", .completed)] :=
    value_of_run hrun Run.log (by decide +kernel)
  exact ⟨⟨hpending, hclear⟩, r, _, hrun, run_recording rfl hrun, by decide +kernel, hextends,
    hstates, hlog, hphase, hsatisfied clean_pair⟩

/-- One step, which waits for a step that is not there. -/
def stray : Plan :=
  .ofSteps "task" "general"
    [{ id := "a", order := 1, stage := .setFormulas, action := "set_formula", dependsOn := ["x"] }]

/-- A run may end well and leave a step out. -/
theorem run_completed_skips_stray : (stray.ids.Nodup ∧ ∀ s ∈ stray.steps, s.status = .pending) ∧
    ∃ r, stray.run {} (fun _ => "t") (fun _ (_ : Unit) => (.ok .null, ())) 0 () = some (.ok r) ∧
      r.plan.phase = .completed ∧
      ∃ s ∈ r.plan.steps, s.status = .skipped ∧ r.plan.dependencyState s.id ≠ .satisfied :=
  ⟨by decide, _, rfl, by decide, by decide⟩

end Run

end WorkbookPlan.Plan
