import Mathlib.Data.List.Find
import WorkbookPlan.Proofs.Plan.Grounded
import WorkbookPlan.Proofs.Run.Books
import WorkbookPlan.Proofs.Step.Schedule

/-! Runs in which no step fails. Such a run does what the schedule of its steps says, so it skips
just the steps that depend on a cycle, and runs each of the others once. -/
namespace WorkbookPlan

open Step

namespace Plan

variable {p : Plan} {id : StepId} {s : Step}

theorem dependencyState_of_completed (h : p.step? id = some s) (hs : s.status = .completed) :
    p.dependencyState id = .satisfied := by
  simp [dependencyState, stateWithin, h, hs]

theorem dependencyState_of_pending (h : p.step? id = some s) (hs : s.status = .pending) :
    p.dependencyState id = .waiting := by
  simp [dependencyState, stateWithin, h, hs]

end Plan

namespace Run

variable {σ : Type _} {settings : Settings} {tokens : Nat → String} {execute : Executor σ}
  {steps : List Step} {done : List StepId} {r r' : Run σ}

/-- Of the steps just these are done, and nothing else has happened. -/
structure Progress (steps : List Step) (done : List StepId) (r : Run σ) : Prop where
  steps : r.plan.steps = markWhere .completed (fun s => done.contains s.id) steps
  repairCount : r.plan.repairCount = 0
  repairs : r.repairs = []
  skipped : r.logged (· == .skipped) = []

theorem skipDoomed_eq_self (h : r.plan.doomed = []) : r.skipDoomed = r := by
  unfold skipDoomed
  cases r.plan.pending.length with
  | zero => rfl
  | succ n => simp [skipRounds, h]

theorem Progress.ids_eq (h : Progress steps done r) : r.plan.ids = steps.map (·.id) := by
  rw [Plan.ids, h.steps, map_id_markWhere]

theorem Progress.completed {s : Step} {o : Outcome} {k : σ} (h : Progress steps done r)
    (hnodup : (steps.map (·.id)).Nodup) (hs : r.plan.nextReady? = some s) :
    Progress steps (done ++ [s.id])
      { r with
        plan := r.plan.complete s.id
        kept := k
        records := r.records ++ [.ofOutcome s .completed o] } := by
  have hdistinct : r.plan.ids.Nodup := h.ids_eq ▸ hnodup
  have heq := Plan.complete_eq_of_ready hs hdistinct
  exact {
    steps := by
      simp only [heq, h.steps]
      rw [markWhere_markWhere]
      congr 1
      funext t
      rw [Bool.eq_iff_iff]
      simp
    repairCount := by rw [heq, h.repairCount]
    repairs := h.repairs
    skipped := by
      rw [logged_of_snoc (x := .ofOutcome s .completed o) rfl, h.skipped]
      rfl }

section Steps

variable (hpending : ∀ s ∈ steps, s.status = .pending)

include hpending

theorem Progress.map_id_pending (h : Progress steps done r) :
    r.plan.pending.map (·.id) = (steps.filter fun s => !done.contains s.id).map (·.id) := by
  rw [Plan.pending, h.steps, map_id_filter_markWhere]
  congr 1
  refine List.filter_congr fun s hs => ?_
  by_cases hdone : s.id ∈ done <;> simp [hdone, isPending, withStatus, hpending s hs]

variable (hnodup : (steps.map (·.id)).Nodup)

include hnodup

theorem Progress.dependencyState_eq (h : Progress steps done r) {id : StepId}
    (hid : id ∈ steps.map (·.id)) :
    r.plan.dependencyState id = if id ∈ done then .satisfied else .waiting := by
  obtain ⟨s, hs, rfl⟩ := List.mem_map.1 hid
  have hdistinct : r.plan.ids.Nodup := h.ids_eq ▸ hnodup
  by_cases hdone : s.id ∈ done
  · have hmem : s.withStatus .completed ∈ r.plan.steps := by
      rw [h.steps]
      exact mem_markWhere.2 ⟨s, hs, .inl ⟨by simpa using hdone, rfl⟩⟩
    have hfind := Plan.step?_of_mem hdistinct hmem
    rw [if_pos hdone]
    exact Plan.dependencyState_of_completed hfind rfl
  · have hmem : s ∈ r.plan.steps := by
      rw [h.steps]
      exact mem_markWhere.2 ⟨s, hs, .inr ⟨by simpa using hdone, rfl⟩⟩
    have hfind := Plan.step?_of_mem hdistinct hmem
    rw [if_neg hdone]
    exact Plan.dependencyState_of_pending hfind (hpending s hs)

/-- All that is not done is skipped in the end, and the log says so. -/
theorem Progress.map_id_skipped (h : Progress steps done r) :
    (r.finish.plan.steps.filter (·.status == .skipped)).map (·.id) =
        (steps.filter fun s => !done.contains s.id).map (·.id) ∧
      r.finish.logged (· == .skipped) =
        (steps.filter fun s => !done.contains s.id).map (·.id) := by
  have hdistinct : r.plan.ids.Nodup := h.ids_eq ▸ hnodup
  have hsteps : r.finish.plan.steps = markWhere .skipped (·.isPending) r.plan.steps := by
    rw [finish_eq r hdistinct]
    rfl
  constructor
  · rw [hsteps, map_id_filter_markWhere, h.steps, map_id_filter_markWhere]
    congr 1
    refine List.filter_congr fun s hs => ?_
    by_cases hdone : s.id ∈ done <;> simp [hdone, isPending, withStatus, hpending s hs]
  · have hall : (r.plan.pending.map Record.skipped).filter (·.status == .skipped) =
        r.plan.pending.map Record.skipped :=
      List.filter_eq_self.2 fun x hx => by
        obtain ⟨s, -, rfl⟩ := List.mem_map.1 hx
        rfl
    rw [finish_eq r hdistinct, logged_of_append rfl, h.skipped, List.nil_append, hall, List.map_map,
      ← h.map_id_pending hpending]
    rfl

variable (hclosed : ∀ s ∈ steps, ∀ d ∈ s.dependsOn, d ∈ steps.map (·.id))

include hclosed

/-- Nothing is dead where nothing has failed. -/
theorem Progress.doomed_eq_nil (h : Progress steps done r) : r.plan.doomed = [] := by
  refine List.eq_nil_iff_forall_not_mem.2 fun t ht => ?_
  obtain ⟨hmem, -, hdoomed⟩ := Plan.mem_doomed.1 ht
  obtain ⟨d, hd, hdead⟩ := List.any_eq_true.1 hdoomed
  rw [h.steps] at hmem
  obtain ⟨s, hs, ht⟩ := mem_markWhere.1 hmem
  have hdeps : t.dependsOn = s.dependsOn := by
    rcases ht with ⟨-, rfl⟩ | ⟨-, rfl⟩ <;> rfl
  have hid : d ∈ steps.map (·.id) := hclosed s hs d (hdeps ▸ hd)
  rw [h.dependencyState_eq hpending hnodup hid] at hdead
  split at hdead <;> cases hdead

theorem Progress.nextReady?_eq (h : Progress steps done r) :
    r.plan.nextReady? = firstOpen? steps done := by
  have hopen : ∀ s ∈ steps, ((fun s : Step => s.isPending && r.plan.isReady s) ∘
      fun s => if done.contains s.id then s.withStatus .completed else s) s = isOpen done s := by
    intro s hs
    have hready : r.plan.isReady s = s.dependsOn.all (done.contains ·) := by
      rw [Bool.eq_iff_iff, Plan.isReady_iff, List.all_eq_true]
      refine forall₂_congr fun d hd => ?_
      rw [h.dependencyState_eq hpending hnodup (hclosed s hs d hd), List.contains_iff_mem]
      split <;> simp [*]
    by_cases hdone : s.id ∈ done
    · simp [isOpen, hdone, withStatus, isPending]
    · simp [isOpen, hdone, isPending, hpending s hs, hready]
  rw [Plan.nextReady?, h.steps, markWhere, List.find?_map, List.find?_congr hopen, firstOpen?]
  cases hs : steps.find? (isOpen done) with
  | none => rfl
  | some s =>
    have hnew : s.id ∉ done := (isOpen_iff.1 (List.find?_some hs)).1
    simp [hnew]

section Executor

variable (hsucceeds : ∀ s k, (execute s k).1.success = true)

include hsucceeds

/-- Each turn does the first step that is open, and the last turn finds none. -/
theorem Progress.turn (settings : Settings) (tokens : Nat → String)
    (h : Progress steps done r) :
    (firstOpen? steps done = none ∧ r.turn settings tokens execute = .ended r.finish ∧
        r.handover? = none) ∨
      ∃ s r', firstOpen? steps done = some s ∧ Again settings tokens execute r r' ∧
        r.handover? = some (r.plan, s) ∧ Progress steps (done ++ [s.id]) r' ∧
        r'.plan.pending.length < r.plan.pending.length := by
  have hdistinct : r.plan.ids.Nodup := h.ids_eq ▸ hnodup
  have hskip : r.skipDoomed = r :=
    skipDoomed_eq_self (h.doomed_eq_nil hpending hnodup hclosed)
  have hready := h.nextReady?_eq hpending hnodup hclosed
  have hacts := turn_acts settings tokens execute r
  rw [hskip] at hacts
  generalize hturn : r.turn settings tokens execute = t at hacts
  have hnever : ∀ {s o k}, execute s r.kept = (o, k) → o.success ≠ false := by
    intro s o k he hno
    have hyes := hsucceeds s r.kept
    rw [he, hno] at hyes
    cases hyes
  cases hacts with
  | @complete s o k hs he =>
    refine .inr ⟨s, _, hready ▸ hs, hturn, ?_, h.completed hnodup hs, ?_⟩
    · rw [handover?, hskip, hs]
      rfl
    · have hcount := (Plan.advances_complete hs hdistinct).length_pending
      have hsome := Plan.length_marked_pos hs
      simp only [List.length_nil] at hcount ⊢
      omega
  | repair _ he hno => exact absurd hno (hnever he)
  | abort _ he hno => exact absurd hno (hnever he)
  | finish hs =>
    refine .inl ⟨hready ▸ hs, rfl, ?_⟩
    rw [handover?, hskip, hs]
    rfl

/-- A run does what the schedule says. -/
theorem Progress.turns (settings : Settings) (tokens : Nat → String)
    (h : Progress steps done r) {n : Nat} (hn : r.plan.pending.length < n) :
    ∃ more q, Scheduled steps done more ∧ Progress steps (done ++ more.map (·.id)) q ∧
      r.turns settings tokens execute n = some (.ok q.finish) ∧
      ((r.starts settings tokens execute n).filterMap handover?).map (·.2) = more := by
  induction n generalizing done r with
  | zero => omega
  | succ n ih =>
    rcases h.turn hpending hnodup hclosed hsucceeds settings tokens with
      ⟨hnone, hended, hhand⟩ | ⟨s, r', hs, hagain, hhand, hnext, hlt⟩
    · refine ⟨[], r, .stop hnone, by simpa using h, turns_of_ended hended, ?_⟩
      simp [starts_of_ended hended, hhand]
    · obtain ⟨more, q, hmore, hq, hturns, hcalls⟩ := ih hnext (by omega)
      refine ⟨s :: more, q, .next hs hmore, by simpa using hq, ?_, ?_⟩
      · rw [turns_of_again hagain, hturns]
      · simp [starts_of_again hagain, hhand, hcalls]

end Executor

end Steps

end Run

namespace Plan

variable {σ : Type _} {p : Plan}

theorem Fresh.progress (hp : p.Fresh) (kept : σ) : Run.Progress p.steps [] (p.opened kept) where
  steps := (markWhere_eq_self fun _ _ => rfl).symm
  repairCount := hp.repairCount
  repairs := rfl
  skipped := rfl

/-- A run without failures skips just the steps that depend on a cycle, and hands out each of the
others once. -/
theorem run_schedules (settings : Settings) (tokens : Nat → String) (execute : Executor σ)
    (spare : Nat) (kept : σ) (p : Plan) (hp : p.Fresh) (hnodup : p.ids.Nodup)
    (hclosed : ∀ s ∈ p.steps, ∀ d ∈ s.dependsOn, d ∈ p.ids)
    (hsucceeds : ∀ s k, (execute s k).1.success = true) :
    let stuck := (StructureReport.stuckIds? p.steps).getD []
    ∃ r calls, p.run settings tokens execute spare kept = some (.ok r) ∧
      p.run settings tokens execute.recording spare (kept, []) = some (.ok (r.withCalls calls)) ∧
      (r.plan.steps.filter (·.status == .skipped)).map (·.id) = stuck ∧
      r.logged (· == .skipped) = stuck ∧
      calls.Perm (p.steps.filter fun s => !stuck.contains s.id) ∧
      r.repairs = [] ∧ r.plan.repairCount = 0 ∧
      ((∀ (i : Nat) (s : Step), p.steps[i]? = some s → ∀ d ∈ s.dependsOn,
          ∃ (j : Nat) (t : Step), j < i ∧ p.steps[j]? = some t ∧ t.id = d) → calls = p.steps) := by
  intro stuck
  have hturns : (p.opened kept).plan.pending.length < p.maxTurns settings + spare := by
    have hsame : (p.opened kept).plan.pending = p.pending := rfl
    rw [hsame, maxTurns]
    omega
  obtain ⟨more, q, hmore, hq, hrun, hcalls⟩ := (hp.progress kept).turns hp.pending hnodup hclosed
    hsucceeds settings tokens hturns
  rw [← run_eq_turns hp.runnable] at hrun
  rw [← starts_eq hp.runnable] at hcalls
  have hrecording := run_recording hp.runnable hrun
  have hhanded : (p.handovers settings tokens execute spare kept).map (·.2) = more := hcalls
  rw [hhanded] at hrecording
  have hstuck : stuck = (p.steps.filter fun s => !(more.map (·.id)).contains s.id).map (·.id) :=
    StructureReport.getD_stuckIds?_of_scheduled hmore hnodup hclosed
  obtain ⟨hskipped, hlog⟩ := hq.map_id_skipped hp.pending hnodup
  have hothers : (p.steps.filter fun s => !stuck.contains s.id) =
      p.steps.filter fun s => (more.map (·.id)).contains s.id := by
    refine List.filter_congr fun s hs => ?_
    rw [hstuck, contains_map_id_filter hnodup hs, Bool.not_not]
  have hplan : (q.finish.plan.steps.filter (·.status == .skipped)).map (·.id) = stuck := by
    rw [hskipped, hstuck, List.nil_append]
  have hlogged : q.finish.logged (· == .skipped) = stuck := by
    rw [hlog, hstuck, List.nil_append]
  have hperm : more.Perm (p.steps.filter fun s => !stuck.contains s.id) :=
    hothers ▸ hmore.perm hnodup
  have hfinish := Run.finish_eq q (hq.ids_eq ▸ hnodup)
  have hrepairs : q.finish.repairs = [] := by rw [hfinish, hq.repairs]
  have hcount : q.finish.plan.repairCount = 0 := by
    rw [hfinish]
    exact hq.repairCount
  exact ⟨q.finish, more, hrun, hrecording, hplan, hlogged, hperm, hrepairs, hcount,
    fun hearlier => hmore.eq_of_earlier [] rfl hnodup hearlier⟩

/-- The second and the third step wait for each other, and the fourth waits for one of them. -/
def knot : Plan :=
  .ofSteps "" ""
    [{ id := "a", order := 1, stage := .writeData, action := "write" },
      { id := "b", order := 2, stage := .writeData, action := "write", dependsOn := ["c"] },
      { id := "c", order := 3, stage := .writeData, action := "write", dependsOn := ["a", "b"] },
      { id := "d", order := 4, stage := .writeData, action := "write", dependsOn := ["a", "c"] },
      { id := "e", order := 5, stage := .writeData, action := "write", dependsOn := ["a"] }]

theorem run_schedules_knot : (knot.Fresh ∧ knot.ids.Nodup ∧
      ∀ s ∈ knot.steps, ∀ d ∈ s.dependsOn, d ∈ knot.ids) ∧
    ∃ r calls, knot.run {} (fun _ => "t") (fun _ (_ : Unit) => (.ok .null, ())) 0 () =
        some (.ok r) ∧
      knot.run {} (fun _ => "t") (Executor.recording fun _ (_ : Unit) => (.ok .null, ())) 0
        ((), []) = some (.ok (r.withCalls calls)) ∧
      (r.plan.steps.filter (·.status == .skipped)).map (·.id) = ["b", "c", "d"] ∧
      (calls.map (·.id)).Perm ["a", "e"] := by
  have hfresh : knot.Fresh := fresh_ofSteps _ _ (by decide)
  have hnodup : knot.ids.Nodup := by decide
  have hclosed : ∀ s ∈ knot.steps, ∀ d ∈ s.dependsOn, d ∈ knot.ids := by decide
  have hstuck : (StructureReport.stuckIds? knot.steps).getD [] = ["b", "c", "d"] := by
    decide +kernel
  obtain ⟨r, calls, hrun, hrecording, hskipped, -, hcalls, -⟩ := run_schedules {} (fun _ => "t")
    (fun _ (_ : Unit) => (.ok .null, ())) 0 () knot hfresh hnodup hclosed fun _ _ => rfl
  rw [hstuck] at hskipped hcalls
  exact ⟨⟨hfresh, hnodup, hclosed⟩, r, calls, hrun, hrecording, hskipped, hcalls.map (·.id)⟩

end Plan

end WorkbookPlan
