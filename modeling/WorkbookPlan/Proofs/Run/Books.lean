import WorkbookPlan.Proofs.Run.Extension
import WorkbookPlan.Proofs.Run.Termination

/-! The books of a run: its log, its repairs, and the lists that its plan keeps. Each step that is
not pending any more has one entry in the log, and all lists follow the log. -/
namespace WorkbookPlan

open Step Relation

namespace Plan

/-- Nothing has been done yet, and the plan can be run. -/
structure Fresh (p : Plan) : Prop where
  runnable : p.refusal? = none
  pending : ∀ s ∈ p.steps, s.status = .pending
  completed : p.completed = []
  failed : p.failed = []
  repairCount : p.repairCount = 0
  supersessions : p.supersessions = .empty

theorem fresh_ofSteps (task taskKind : String) {steps : List Step}
    (h : ∀ s ∈ steps, s.status = .pending) : (ofSteps task taskKind steps).Fresh :=
  ⟨rfl, h, rfl, rfl, rfl, rfl⟩

theorem insertOnce_of_notMem {ids : List StepId} {id : StepId} (h : id ∉ ids) :
    insertOnce ids id = ids ++ [id] := by
  simp [insertOnce, h]

end Plan

namespace Run

variable {σ : Type _} {settings : Settings} {tokens : Nat → String} {execute : Executor σ}
  {r r' q : Run σ} {steps : List Step}

def logged (r : Run σ) (which : Status → Bool) : List StepId :=
  (r.records.filter fun x => which x.status).map (·.stepId)

def executed (r : Run σ) : List StepId :=
  r.logged fun status => status == .completed || status == .failed

theorem logged_of_append {more : List Record} (h : q.records = r.records ++ more)
    (which : Status → Bool) :
    q.logged which = r.logged which ++ (more.filter fun x => which x.status).map (·.stepId) := by
  rw [logged, h, List.filter_append, List.map_append, logged]

theorem logged_of_snoc {x : Record} (h : q.records = r.records ++ [x]) (which : Status → Bool) :
    q.logged which = r.logged which ++ if which x.status then [x.stepId] else [] := by
  rw [logged_of_append h]
  by_cases hx : which x.status = true <;> simp [hx]

theorem logged_of_skipped {more : List Record} (h : q.records = r.records ++ more)
    (hmore : ∀ x ∈ more, x.status = .skipped) {which : Status → Bool}
    (hwhich : which .skipped = false) : q.logged which = r.logged which := by
  have hnone : (more.filter fun x => which x.status) = [] :=
    List.filter_eq_nil_iff.2 fun x hx => by simp [hmore x hx, hwhich]
  rw [logged_of_append h, hnone, List.map_nil, List.append_nil]

theorem mem_ids_of_mem_logged {which : Status → Bool} {id : StepId} (h : id ∈ r.logged which) :
    id ∈ r.records.map (·.stepId) := by
  obtain ⟨x, hx, rfl⟩ := List.mem_map.1 h
  exact List.mem_map_of_mem (List.mem_filter.1 hx).1

/-- The log has one entry for each step that is not pending any more, with its state. -/
structure Logged (r : Run σ) : Prop where
  distinct : r.plan.ids.Nodup
  once : (r.records.map (·.stepId)).Nodup
  status : ∀ x ∈ r.records, ∃ s ∈ r.plan.steps, s.id = x.stepId ∧ s.status = x.status
  settled : ∀ x ∈ r.records, x.status ≠ .pending
  complete : ∀ s ∈ r.plan.steps, s.status ≠ .pending → s.id ∈ r.records.map (·.stepId)

/-- The lists beside the log follow it. -/
structure Listed (r : Run σ) : Prop where
  completed : r.plan.completed = r.logged (· == .completed)
  failed : r.plan.failed = r.logged (· == .failed)
  repairs : r.repairs.length = (r.logged (· == .failed)).length
  superseded : ∀ e ∈ r.plan.supersessions.entries, e.1 ∈ r.plan.failed
  made : ∀ repair ∈ r.repairs, repair.canContinue = repair.strategy.canContinue

structure Booked (r : Run σ) : Prop extends Logged r, Listed r

theorem Logged.notMem_of_pending (hr : r.Logged) {s : Step} (hs : s ∈ r.plan.steps)
    (hpending : s.status = .pending) : s.id ∉ r.records.map (·.stepId) := by
  intro h
  obtain ⟨x, hx, hid⟩ := List.mem_map.1 h
  obtain ⟨t, ht, hname, hstatus⟩ := hr.status x hx
  obtain rfl := Plan.eq_of_id_eq hr.distinct ht hs (hname.trans hid)
  exact hr.settled x hx (hstatus.symm.trans hpending)

/-- What is marked gets its entries. -/
theorem Logged.advances {status : Status} {which : Step → Bool} {new : List Step}
    {more : List Record} (hr : r.Logged)
    (h : Plan.Advances r.plan q.plan status which new) (hrecords : q.records = r.records ++ more)
    (hmore : more.map (·.stepId) = (r.plan.steps.filter which).map (·.id))
    (hstatus : ∀ x ∈ more, x.status = status) : q.Logged where
  distinct := h.distinct
  once := by
    rw [hrecords, List.map_append, hmore]
    refine List.nodup_append.2
      ⟨hr.once, hr.distinct.sublist (List.filter_sublist.map _), fun a ha b hb hab => ?_⟩
    obtain ⟨s, hs, rfl⟩ := List.mem_map.1 hb
    obtain ⟨hs, hw⟩ := List.mem_filter.1 hs
    have hpending : s.status = .pending := by simpa [isPending] using h.pending s hs hw
    exact hr.notMem_of_pending hs hpending (hab ▸ ha)
  status x hx := by
    rcases List.mem_append.1 (hrecords ▸ hx) with hold | hnew
    · obtain ⟨s, hs, hid, hsame⟩ := hr.status x hold
      have hw : which s = false := by
        by_contra hw
        have hpending := h.pending s hs (by simpa using hw)
        rw [isPending, hsame] at hpending
        exact hr.settled x hold (by simpa using hpending)
      exact ⟨s, h.mem_steps.2 (.inr (.inl ⟨hs, hw⟩)), hid, hsame⟩
    · have hid : x.stepId ∈ (r.plan.steps.filter which).map (·.id) :=
        hmore ▸ List.mem_map_of_mem hnew
      obtain ⟨s, hs, hid⟩ := List.mem_map.1 hid
      obtain ⟨hs, hw⟩ := List.mem_filter.1 hs
      exact ⟨s.withStatus status, h.mem_steps.2 (.inl ⟨s, hs, hw, rfl⟩), hid,
        (hstatus x hnew).symm⟩
  settled x hx := by
    rcases List.mem_append.1 (hrecords ▸ hx) with hold | hnew
    · exact hr.settled x hold
    · rw [hstatus x hnew]
      exact h.status_ne
  complete t ht hopen := by
    rw [hrecords, List.map_append, List.mem_append]
    rcases h.mem_steps.1 ht with ⟨s, hs, hw, rfl⟩ | ⟨hold, -⟩ | hnew
    · rw [hmore]
      exact .inr (List.mem_map.2 ⟨s, List.mem_filter.2 ⟨hs, hw⟩, rfl⟩)
    · exact .inl (hr.complete t hold hopen)
    · exact absurd (h.new_pending t hnew) hopen

theorem Booked.skipped {which : Step → Bool} (hr : r.Booked)
    (h : Plan.Advances r.plan q.plan .skipped which [])
    (hrecords : q.records = r.records ++ (r.plan.steps.filter which).map .skipped)
    (hcompleted : q.plan.completed = r.plan.completed) (hfailed : q.plan.failed = r.plan.failed)
    (hlinks : q.plan.supersessions = r.plan.supersessions) (hrepairs : q.repairs = r.repairs) :
    q.Booked := by
  have hskipped : ∀ x ∈ (r.plan.steps.filter which).map Record.skipped, x.status = .skipped := by
    intro x hx
    obtain ⟨s, -, rfl⟩ := List.mem_map.1 hx
    rfl
  have hmore : ((r.plan.steps.filter which).map Record.skipped).map (·.stepId) =
      (r.plan.steps.filter which).map (·.id) := by
    rw [List.map_map]
    rfl
  have hdone : q.logged (· == .completed) = r.logged (· == .completed) :=
    logged_of_skipped hrecords hskipped rfl
  have hlost : q.logged (· == .failed) = r.logged (· == .failed) :=
    logged_of_skipped hrecords hskipped rfl
  exact {
    toLogged := hr.toLogged.advances h hrecords hmore hskipped
    completed := by rw [hcompleted, hdone, hr.completed]
    failed := by rw [hfailed, hlost, hr.failed]
    repairs := by rw [hrepairs, hlost, hr.repairs]
    superseded := hlinks ▸ hfailed ▸ hr.superseded
    made := hrepairs ▸ hr.made }

section Ready

variable {s : Step} {o : Outcome} (hs : r.plan.nextReady? = some s)

include hs

theorem filter_id_of_ready (hd : r.plan.ids.Nodup) : r.plan.steps.filter (·.id == s.id) = [s] := by
  have hmem := (Plan.nextReady?_eq_some hs).1
  have hnodup : (r.plan.steps.filter (·.id == s.id)).Nodup := (hd.of_map _).filter _
  refine List.perm_singleton.1 ((List.perm_ext_iff_of_nodup hnodup (List.nodup_singleton s)).2 ?_)
  intro t
  rw [List.mem_filter, List.mem_singleton, beq_iff_eq]
  constructor
  · rintro ⟨ht, hid⟩
    exact Plan.eq_of_id_eq hd ht hmem hid
  · rintro rfl
    exact ⟨hmem, rfl⟩

theorem Logged.ran (hr : r.Logged) {status : Status} {new : List Step}
    (h : Plan.Advances r.plan q.plan status (·.id == s.id) new)
    (hrecords : q.records = r.records ++ [.ofOutcome s status o]) : q.Logged := by
  refine hr.advances h hrecords ?_ fun x hx => ?_
  · rw [filter_id_of_ready hs hr.distinct]
    rfl
  · rw [List.mem_singleton.1 hx, Record.ofOutcome]

theorem Logged.notMem_of_ready (hr : r.Logged) (which : Status → Bool) :
    s.id ∉ r.logged which := by
  obtain ⟨hmem, hpending, -⟩ := Plan.nextReady?_eq_some hs
  have hopen : s.status = .pending := by simpa [isPending] using hpending
  exact fun h => hr.notMem_of_pending hmem hopen (mem_ids_of_mem_logged h)

theorem Booked.completed_ready (hr : r.Booked) (hplan : q.plan = r.plan.complete s.id)
    (hrecords : q.records = r.records ++ [.ofOutcome s .completed o])
    (hrepairs : q.repairs = r.repairs) : q.Booked := by
  have hadvances := Plan.advances_complete hs hr.distinct
  rw [← hplan] at hadvances
  rw [Plan.complete_eq_of_ready hs hr.distinct] at hplan
  have hcompleted : q.logged (· == .completed) = r.logged (· == .completed) ++ [s.id] :=
    logged_of_snoc hrecords _
  have hfailed : q.logged (· == .failed) = r.logged (· == .failed) ++ [] :=
    logged_of_snoc hrecords _
  rw [List.append_nil] at hfailed
  have hnew : s.id ∉ r.plan.completed := hr.completed ▸ hr.notMem_of_ready hs _
  exact {
    toLogged := hr.toLogged.ran hs hadvances hrecords
    completed := by
      rw [hcompleted, hplan, ← hr.completed]
      exact Plan.insertOnce_of_notMem hnew
    failed := by rw [hfailed, hplan, ← hr.failed]
    repairs := by rw [hfailed, hrepairs, hr.repairs]
    superseded := by
      rw [hplan]
      exact hr.superseded
    made := hrepairs ▸ hr.made }

/-- A failure is taken down together with its repair. -/
theorem Booked.failed_ready {new : List Step} {repair : Repair} (hr : r.Booked)
    (h : Plan.Advances r.plan q.plan .failed (·.id == s.id) new)
    (hcompleted : q.plan.completed = r.plan.completed)
    (hfailed : q.plan.failed = Plan.insertOnce r.plan.failed s.id)
    (hlinks : ∀ e ∈ q.plan.supersessions.entries,
      e ∈ r.plan.supersessions.entries ∨ e.1 = s.id)
    (hrecords : q.records = r.records ++ [.ofOutcome s .failed o])
    (hrepairs : q.repairs = r.repairs ++ [repair])
    (hmade : repair.canContinue = repair.strategy.canContinue) : q.Booked := by
  have hdone : q.logged (· == .completed) = r.logged (· == .completed) ++ [] :=
    logged_of_snoc hrecords _
  have hlost : q.logged (· == .failed) = r.logged (· == .failed) ++ [s.id] :=
    logged_of_snoc hrecords _
  rw [List.append_nil] at hdone
  have hnew : s.id ∉ r.plan.failed := hr.failed ▸ hr.notMem_of_ready hs _
  rw [Plan.insertOnce_of_notMem hnew] at hfailed
  exact {
    toLogged := hr.toLogged.ran hs h hrecords
    completed := by rw [hdone, hcompleted, hr.completed]
    failed := by rw [hlost, hfailed, hr.failed]
    repairs := by
      rw [hlost, hrepairs, List.length_append, List.length_append, hr.repairs]
      rfl
    superseded := fun e he => by
      rw [hfailed, List.mem_append, List.mem_singleton]
      exact (hlinks e he).imp (hr.superseded e) id
    made := fun x hx => by
      rcases List.mem_append.1 (hrepairs ▸ hx) with hold | hadded
      · exact hr.made x hold
      · exact List.mem_singleton.1 hadded ▸ hmade }

end Ready

theorem mem_supersessions_repaired {p : Plan} {s : Step} {repair : Repair}
    (hs : p.nextReady? = some s) (hd : p.ids.Nodup) {e : StepId × StepId}
    (he : e ∈ (p.repaired s repair).supersessions.entries) :
    e ∈ p.supersessions.entries ∨ e.1 = s.id := by
  simp only [Plan.repaired, Plan.extend, Plan.fail_eq_of_ready hs hd] at he
  split at he
  · exact .inl he
  · exact (Keyed.mem_insert he).symm.imp_right fun h => by rw [h]

theorem Acts.booked {t : Turn σ} (h : Acts settings tokens execute r t) (hr : r.Booked)
    (ht : r.plan.Tidy tokens) (hend : t.run? = some r') : r'.Booked := by
  have hd := ht.distinct
  cases h with
  | complete hs =>
    cases hend
    exact hr.completed_ready hs rfl rfl rfl
  | @repair s o _ hs _ _ hcount =>
    cases hend
    have hfits := Plan.fits_of_count tokens s (o.error.getD "") (count_context r.plan s.id o) hcount
    refine hr.failed_ready hs (ht.advances_of_fits hs hfits) ?_ ?_
      (fun e => mem_supersessions_repaired hs hd) rfl rfl rfl
    · simp only [Plan.repaired, Plan.extend, Plan.fail_eq_of_ready hs hd]
    · simp only [Plan.repaired, Plan.extend, Plan.fail_eq_of_ready hs hd]
  | abort hs =>
    cases hend
    refine hr.failed_ready hs (Plan.advances_aborted hs hd) ?_ ?_ (fun e he => .inl ?_) rfl rfl
      rfl
    · simp only [Plan.aborted, Plan.fail_eq_of_ready hs hd]
    · simp only [Plan.aborted, Plan.fail_eq_of_ready hs hd]
    · simpa only [Plan.aborted, Plan.fail_eq_of_ready hs hd] using he
  | finish =>
    cases hend
    rw [finish_eq r hd]
    exact hr.skipped (Plan.advances_finished hd) rfl rfl rfl rfl rfl

theorem Booked.skipDoomed (hr : r.Booked) : r.skipDoomed.Booked :=
  skipRounds_induction (P := Booked) (fun _ hd _ hr =>
    hr.skipped (Plan.advances_skipRound hd) rfl rfl rfl rfl rfl) _ hr.distinct hr

theorem Booked.turn (hr : r.Booked) (ht : r.plan.Tidy tokens)
    (h : (r.turn settings tokens execute).run? = some r') : r'.Booked :=
  (turn_acts settings tokens execute r).booked hr.skipDoomed
    ((skipDoomed_reaches settings tokens r ht.distinct).tidy ht) h

theorem Booked.of_again (hr : r.Booked) (ht : r.plan.Tidy tokens)
    (h : ReflTransGen (Again settings tokens execute) r r') : r'.Booked := by
  induction h with
  | refl => exact hr
  | tail hreach hagain ih =>
    have htidy := (reaches_of_again hreach ht).tidy ht
    exact ih.turn htidy (congrArg Turn.run? hagain)

theorem executed_of_skipped (hrecords : q.records = r.records ++ steps.map .skipped) :
    q.executed = r.executed := by
  refine logged_of_skipped hrecords (fun x hx => ?_) rfl
  obtain ⟨s, -, rfl⟩ := List.mem_map.1 hx
  rfl

theorem executed_skipDoomed (hd : r.plan.ids.Nodup) : r.skipDoomed.executed = r.executed :=
  skipRounds_induction (P := fun q => q.executed = r.executed)
    (fun _ _ _ h => (executed_of_skipped rfl).trans h) _ hd rfl

theorem Acts.executed {t : Turn σ} (h : Acts settings tokens execute r t) (hd : r.plan.ids.Nodup)
    (hend : t.run? = some r') :
    r'.executed = r.executed ++ (r.plan.nextReady?.map (·.id)).toList := by
  cases h with
  | @complete s o _ hs =>
    cases hend
    rw [hs]
    exact logged_of_snoc (x := .ofOutcome s .completed o) rfl _
  | @repair s o _ hs | @abort s o _ hs =>
    cases hend
    rw [hs]
    exact logged_of_snoc (x := .ofOutcome s .failed o) rfl _
  | finish hs =>
    cases hend
    rw [hs, finish_eq r hd, Option.map_none, Option.toList_none, List.append_nil]
    exact executed_of_skipped rfl

theorem executed_turn (hd : r.plan.ids.Nodup)
    (h : (r.turn settings tokens execute).run? = some r') :
    r'.executed = r.executed ++ (r.handover?.toList.map (·.2)).map (·.id) := by
  have hacts := (turn_acts settings tokens execute r).executed (nodup_skipDoomed hd) h
  rw [hacts, executed_skipDoomed hd, handover?]
  cases r.skipDoomed.plan.nextReady? <;> rfl

/-- What was run to its end is what was handed out. -/
theorem Unfolds.executed {n : Nat} (h : Unfolds settings tokens execute n r)
    (hturns : r.turns settings tokens execute n = some (.ok r')) :
    r'.executed = r.executed ++
      (((r.starts settings tokens execute n).filterMap handover?).map (·.2)).map (·.id) := by
  induction h with
  | zero => cases hturns
  | again ht hagain _ ih =>
    rw [turns_of_again hagain] at hturns
    have hturn := executed_turn ht.distinct (congrArg Turn.run? hagain)
    rw [starts_of_again hagain, ih hturns, hturn, List.append_assoc, List.filterMap_cons]
    cases handover? _ <;> rfl
  | ended ht hended =>
    rw [turns_of_ended hended] at hturns
    cases hturns
    have hturn := executed_turn ht.distinct (congrArg Turn.run? hended)
    rw [starts_of_ended hended, hturn, List.filterMap_cons, List.filterMap_nil]
    cases handover? _ <;> rfl

/-- The two ends of a run, by what the books say. -/
theorem Booked.ended (hr : r.Booked) (hc : Counted settings 0 r)
    (h : r.turn settings tokens execute = .ended r') :
    ((∀ repair ∈ r'.repairs, repair.strategy ≠ .abort) ∧
        r'.plan.repairCount = r'.repairs.length ∧ ∀ s ∈ r'.plan.steps, s.status ≠ .pending) ∨
      ∃ s o repair, r'.records.getLast? = some (.ofOutcome s .failed o) ∧
        r'.repairs = r.repairs ++ [repair] ∧ repair.strategy = .abort ∧
        r'.plan.repairCount = r.repairs.length ∧ r'.plan.phase = .failed := by
  have hdistinct := nodup_skipDoomed hr.distinct
  obtain ⟨hrepairs, hcount⟩ := repairs_skipDoomed hr.distinct
  have hbefore : r.plan.repairCount = r.repairs.length := by simpa using hc.count_eq
  have hacts := turn_acts settings tokens execute r
  rw [h] at hacts
  cases hacts with
  | finish =>
    rw [finish_eq _ hdistinct]
    refine .inl ⟨fun repair hmem => ?_, ?_, fun s hs => ?_⟩
    · have hold : repair ∈ r.repairs := hrepairs ▸ hmem
      have hcan := hr.made repair hold
      rw [hc.canContinue repair hold] at hcan
      exact bne_iff_ne.1 hcan.symm
    · exact hcount.trans (hbefore.trans (congrArg List.length hrepairs.symm))
    · rcases (Plan.advances_finished hdistinct).mem_steps.1 hs with ⟨t, -, -, rfl⟩ | ⟨-, hw⟩ | hnew
      · exact (by decide : Status.skipped ≠ .pending)
      · simpa [isPending] using hw
      · cases hnew
  | abort _ _ _ hlimit =>
    refine .inr ⟨_, _, _, List.getLast?_concat, congrArg (· ++ _) hrepairs,
      strategy_repairOf.2 hlimit, ?_, rfl⟩
    rw [Plan.repairCount_aborted, hcount, hbefore]

end Run

namespace Plan

variable {σ : Type _} {p : Plan}

theorem Fresh.booked (hp : p.Fresh) (hd : p.ids.Nodup) (kept : σ) :
    (p.opened kept).Booked where
  distinct := hd
  once := .nil
  status _ h := nomatch h
  settled _ h := nomatch h
  complete s hs h := absurd (hp.pending s hs) h
  completed := hp.completed
  failed := hp.failed
  repairs := rfl
  superseded e he := by
    have hnone : e ∈ p.supersessions.entries := he
    rw [hp.supersessions] at hnone
    cases hnone
  made _ h := nomatch h

theorem Fresh.counted (hp : p.Fresh) (settings : Settings) (kept : σ) :
    Run.Counted settings 0 (p.opened kept) where
  count_eq := hp.repairCount
  length_le := Nat.zero_le _
  canContinue _ h := nomatch h

/-- A run of a fresh plan comes to an end, and its log, its repairs and its plan agree. -/
theorem run_keeps_books (settings : Settings) (tokens : Nat → String) (execute : Executor σ)
    (spare : Nat) (kept : σ) (p : Plan) (hp : p.Fresh) (ht : p.Tidy tokens) :
    ∃ r calls, p.run settings tokens execute spare kept = some (.ok r) ∧
      p.run settings tokens execute.recording spare (kept, []) = some (.ok (r.withCalls calls)) ∧
      p.Extends r.plan ∧
      calls.map (·.id) = r.logged (fun status => status == .completed || status == .failed) ∧
      (r.records.map (·.stepId)).Nodup ∧
      (∀ x ∈ r.records, (r.plan.step? x.stepId).map (·.status) = some x.status) ∧
      r.plan.completed = r.logged (· == .completed) ∧
      r.plan.failed = r.logged (· == .failed) ∧
      r.repairs.length = (r.logged (· == .failed)).length ∧
      r.plan.repairCount = r.repairs.length -
        (if r.repairs.getLast?.map (·.strategy) = some .abort then 1 else 0) ∧
      (∀ e ∈ r.plan.supersessions.entries, e.1 ∈ r.plan.failed) ∧
      ((∀ repair ∈ r.repairs, repair.strategy ≠ .abort) →
        ∀ s ∈ r.plan.steps, s.id ∈ r.records.map (·.stepId)) ∧
      ((∃ repair ∈ r.repairs, repair.strategy = .abort) →
        (∀ s ∈ r.plan.steps, s.id ∉ r.records.map (·.stepId) ↔ s.status = .pending) ∧
        r.records.getLast?.map (·.status) = some .failed ∧ r.plan.phase = .failed) := by
  obtain ⟨q, r, hreach, hended, hrun⟩ :=
    run_ends settings execute spare kept hp.runnable ht
  have hopened : (p.opened kept).plan.Tidy tokens := tidy_opened ht
  have hq : q.plan.Tidy tokens := (Run.reaches_of_again hreach hopened).tidy hopened
  have hcounted := (hp.counted settings kept).of_again hopened hreach
  have hbefore : q.Booked := (hp.booked ht.distinct kept).of_again hopened hreach
  have hbooked : r.Booked := hbefore.turn hq (congrArg Turn.run? hended)
  have hturns := hrun
  rw [run_eq_turns hp.runnable] at hturns
  have hcalls := (Run.unfolds settings execute _ hopened).executed hturns
  rw [← starts_eq hp.runnable] at hcalls
  have hextends : p.Extends r.plan := extends_of_run hp.runnable ht hrun
  have hstatus : ∀ x ∈ r.records, (r.plan.step? x.stepId).map (·.status) = some x.status := by
    intro x hx
    obtain ⟨s, hs, hid, hsame⟩ := hbooked.status x hx
    rw [← hid, step?_of_mem hbooked.distinct hs, Option.map_some, hsame]
  refine ⟨r, _, hrun, run_recording hp.runnable hrun, hextends, hcalls.symm, hbooked.once, hstatus,
    hbooked.completed, hbooked.failed, hbooked.repairs, ?_⟩
  -- only the last turn can tell whether the run gave up
  rcases hbefore.ended hcounted hended with
    ⟨hnone, hcount, hdone⟩ | ⟨_, _, repair, hlast, hrepairs, habort, hcount, hphase⟩
  · have hgoes : r.repairs.getLast?.map (·.strategy) ≠ some .abort := fun h => by
      obtain ⟨repair, hlast, habort⟩ := Option.map_eq_some_iff.1 h
      exact hnone repair (List.mem_of_getLast? hlast) habort
    refine ⟨?_, hbooked.superseded, fun _ s hs => hbooked.complete s hs (hdone s hs), ?_⟩
    · rw [if_neg hgoes, hcount, Nat.sub_zero]
    · rintro ⟨repair, hmem, habort⟩
      exact absurd habort (hnone repair hmem)
  · have hgives : r.repairs.getLast?.map (·.strategy) = some .abort := by
      rw [hrepairs, List.getLast?_concat, Option.map_some, habort]
    have hmem : repair ∈ r.repairs := by simp [hrepairs]
    refine ⟨?_, hbooked.superseded, fun hgoes => absurd habort (hgoes repair hmem),
      fun _ => ⟨fun s hs => ?_, ?_, hphase⟩⟩
    · rw [if_pos hgives, hcount, hrepairs, List.length_append, List.length_singleton,
        Nat.add_sub_cancel]
    · exact ⟨not_imp_comm.1 (hbooked.complete s hs), hbooked.notMem_of_pending hs⟩
    · rw [hlast, Option.map_some, Record.ofOutcome]

/-- All fails, so the books close with a repair that gives up. -/
theorem run_keeps_books_pair : (pair.Fresh ∧ pair.Tidy fun _ => "t") ∧
    ∃ r calls, pair.run {} (fun _ => "t") (fun _ (_ : Unit) => (.failure "", ())) 0 () =
        some (.ok r) ∧
      pair.run {} (fun _ => "t") (Executor.recording fun _ (_ : Unit) => (.failure "", ())) 0
        ((), []) = some (.ok (r.withCalls calls)) ∧
      pair.Extends r.plan ∧ calls.map (·.id) = ["a", "r1_t_1", "r2_t_1", "r3_t_1"] ∧
      r.log = [("a", .failed), ("r1_t_1", .failed), ("b", .skipped), ("r2_t_1", .failed),
        ("r3_t_1", .failed)] ∧
      r.states = [("a", .failed), ("b", .skipped), ("r1_t_1", .failed), ("r2_t_1", .failed),
        ("r3_t_1", .failed)] ∧
      r.repairs.map (·.strategy) = [.retry, .rollBack, .rollBack, .abort] ∧
      r.plan.repairCount = 3 ∧ r.plan.completed = [] ∧
      r.plan.failed = ["a", "r1_t_1", "r2_t_1", "r3_t_1"] ∧ r.plan.phase = .failed := by
  have hfresh : pair.Fresh := fresh_ofSteps _ _ (by decide)
  have htidy : pair.Tidy fun _ => "t" := tidy_pair _
  obtain ⟨r, calls, hrun, hrecording, hextends, hcalls, -, -, hcompleted, hfailed, -, -, -, -,
    hgives⟩ := run_keeps_books {} (fun _ => "t") (fun _ (_ : Unit) => (.failure "", ())) 0 () pair
      hfresh htidy
  have hlog : r.log = [("a", .failed), ("r1_t_1", .failed), ("b", .skipped), ("r2_t_1", .failed),
      ("r3_t_1", .failed)] :=
    value_of_run hrun Run.log (by decide +kernel)
  have hstates : r.states = [("a", .failed), ("b", .skipped), ("r1_t_1", .failed), ("r2_t_1", .failed),
      ("r3_t_1", .failed)] :=
    value_of_run hrun Run.states (by decide +kernel)
  have hran : r.executed = ["a", "r1_t_1", "r2_t_1", "r3_t_1"] :=
    value_of_run hrun Run.executed (by decide +kernel)
  have hdone : r.logged (· == .completed) = [] :=
    value_of_run hrun (Run.logged · (· == .completed)) (by decide +kernel)
  have hlost : r.logged (· == .failed) = ["a", "r1_t_1", "r2_t_1", "r3_t_1"] :=
    value_of_run hrun (Run.logged · (· == .failed)) (by decide +kernel)
  have hrepairs : r.repairs.map (·.strategy) = [.retry, .rollBack, .rollBack, .abort] :=
    value_of_run hrun (·.repairs.map (·.strategy)) (by decide +kernel)
  have hthree : r.plan.repairCount = 3 :=
    value_of_run hrun (·.plan.repairCount) (by decide +kernel)
  have habort : ∃ repair ∈ r.repairs, repair.strategy = .abort := by
    refine List.mem_map.1 ?_
    rw [hrepairs]
    decide
  exact ⟨⟨hfresh, htidy⟩, r, calls, hrun, hrecording, hextends, hcalls.trans hran, hlog, hstates,
    hrepairs, hthree, hcompleted.trans hdone, hfailed.trans hlost, (hgives habort).2.2⟩

end Plan

end WorkbookPlan
