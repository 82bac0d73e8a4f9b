import WorkbookPlan.Proofs.Run.Trace

/-! Each turn but the last takes away from the work that is left: pending steps, and the steps that
the repairs left may add. So every run of a tidy plan comes to an end, with that many calls at most. -/
namespace WorkbookPlan

open Step Relation

namespace Plan

variable {settings : Settings} {tokens : Nat → String} {p q : Plan}

/-- The number of steps that can still be handed to the executor. -/
def work (settings : Settings) (p : Plan) : Nat :=
  p.pending.length + (settings.maxRepairs - p.repairCount) * max 2 settings.splitParts

theorem mem_pending_of_ready {s : Step} (hs : p.nextReady? = some s) : s ∈ p.pending :=
  List.mem_filter.2 ⟨(nextReady?_eq_some hs).1, (nextReady?_eq_some hs).2.1⟩

theorem work_pos_of_ready (settings : Settings) {s : Step} (hs : p.nextReady? = some s) :
    0 < p.work settings :=
  Nat.add_pos_left (List.length_pos_of_mem (mem_pending_of_ready hs)) _

theorem length_marked_pos {s : Step} (hs : p.nextReady? = some s) :
    0 < (p.steps.filter (·.id == s.id)).length :=
  List.length_pos_of_mem (List.mem_filter.2 ⟨(nextReady?_eq_some hs).1, by simp⟩)

theorem Move.work_lt (h : Move settings tokens p q) (hp : p.Tidy tokens) :
    q.work settings < p.work settings := by
  cases h with
  | skip hdoomed =>
    have hcount := (advances_skipRound hp.distinct).length_pending
    have hsome : 0 < p.doomed.length := List.length_pos_of_ne_nil hdoomed
    have hrepairs : p.skipRound.repairCount = p.repairCount := rfl
    simp only [work, hrepairs, doomed, List.length_nil] at hcount hsome ⊢
    omega
  | complete _ hs =>
    have hcount := (advances_complete hs hp.distinct).length_pending
    have hsome := length_marked_pos hs
    simp only [work, repairCount_complete hs hp.distinct, List.length_nil] at hcount ⊢
    omega
  | @repair s error context _ hs hcontext hlimit =>
    have hfits := fits_of_count tokens s error hcontext hlimit
    have hcount := (hp.advances_of_fits hs hfits).length_pending
    have hsome := length_marked_pos hs
    have hnew : (Repair.ofStep settings (tokens (p.repairCount + 1)) s error context).newSteps.length ≤
      max 2 settings.splitParts := hfits.length_le
    obtain ⟨left, hleft⟩ : ∃ left, settings.maxRepairs - p.repairCount = left + 1 :=
      ⟨settings.maxRepairs - p.repairCount - 1, by omega⟩
    have hleft' : settings.maxRepairs - (p.repairCount + 1) = left := by omega
    simp only [work, repairCount_repaired, hleft, hleft', length_renumber, Nat.succ_mul]
      at hcount ⊢
    omega

theorem Reaches.work_le (h : Reaches settings tokens p q) (hp : p.Tidy tokens) :
    q.work settings ≤ p.work settings := by
  induction h with
  | refl => exact Nat.le_refl _
  | tail hreach hmove ih =>
    exact Nat.le_trans (Nat.le_of_lt (hmove.work_lt (Reaches.tidy hreach hp))) ih

end Plan

namespace Run

variable {σ : Type _} {settings : Settings} {tokens : Nat → String} {execute : Executor σ}
  {r r' : Run σ}

theorem Acts.move (h : Acts settings tokens execute r (.again r')) (hd : r.plan.doomed = []) :
    Plan.Move settings tokens r.plan r'.plan := by
  cases h with
  | complete hs => exact .complete hd hs
  | repair hs _ _ hcount => exact .repair hd hs (count_context ..) hcount

theorem Again.move (h : Again settings tokens execute r r') (hr : r.plan.Tidy tokens) :
    Plan.Move settings tokens r.skipDoomed.plan r'.plan := by
  have hacts := turn_acts settings tokens execute r
  rw [h] at hacts
  exact hacts.move (doomed_skipDoomed r hr.distinct)

theorem Again.reaches (h : Again settings tokens execute r r') (hr : r.plan.Tidy tokens) :
    Plan.Reaches settings tokens r.plan r'.plan :=
  (skipDoomed_reaches settings tokens r hr.distinct).tail (h.move hr)

theorem reaches_of_again (h : ReflTransGen (Again settings tokens execute) r r')
    (hr : r.plan.Tidy tokens) : Plan.Reaches settings tokens r.plan r'.plan := by
  induction h with
  | refl => exact .refl
  | tail _ hagain ih => exact ih.trans (hagain.reaches (Plan.Reaches.tidy ih hr))

theorem work_skipDoomed_le (settings : Settings) (hr : r.plan.Tidy tokens) :
    r.skipDoomed.plan.work settings ≤ r.plan.work settings :=
  (skipDoomed_reaches settings tokens r hr.distinct).work_le hr

theorem Again.work_lt (h : Again settings tokens execute r r') (hr : r.plan.Tidy tokens) :
    r'.plan.work settings < r.plan.work settings := by
  have hskip := skipDoomed_reaches settings tokens r hr.distinct
  exact Nat.lt_of_lt_of_le ((h.move hr).work_lt (hskip.tidy hr)) (hskip.work_le hr)

theorem turn_ne_lost (r : Run σ) (id : StepId) : r.turn settings tokens execute ≠ .lost id := by
  intro h
  have hacts := turn_acts settings tokens execute r
  rw [h] at hacts
  cases hacts

/-- The two ends of a run: nothing is ready, or there are no repairs left. -/
theorem turn_ended (h : r.turn settings tokens execute = .ended r') (hr : r.plan.ids.Nodup) :
    (r.skipDoomed.plan.nextReady? = none ∧ r'.plan = r.skipDoomed.plan.finished ∧
        r'.repairs = r.repairs) ∨
      ∃ s repair, r.skipDoomed.plan.nextReady? = some s ∧
        settings.maxRepairs ≤ r.skipDoomed.plan.repairCount ∧
        r'.plan = r.skipDoomed.plan.aborted s ∧ r'.repairs = r.repairs ++ [repair] ∧
        repair.strategy = .abort ∧ repair.canContinue = false := by
  have hrepairs := (repairs_skipDoomed hr).1
  have hacts := turn_acts settings tokens execute r
  rw [h] at hacts
  cases hacts with
  | finish hs =>
    rw [finish_eq _ (nodup_skipDoomed hr)]
    exact .inl ⟨hs, rfl, hrepairs⟩
  | abort hs _ _ hlimit =>
    refine .inr ⟨_, _, hs, hlimit, rfl, congrArg (· ++ _) hrepairs, strategy_repairOf.2 hlimit, ?_⟩
    rw [← Bool.not_eq_true, canContinue_repairOf]
    omega

/-- A number of turns from a tidy plan on, as far as there are so many. -/
inductive Unfolds (settings : Settings) (tokens : Nat → String) (execute : Executor σ) :
    Nat → Run σ → Prop where
  | zero (r : Run σ) : Unfolds settings tokens execute 0 r
  | again {n : Nat} {r r' : Run σ} : r.plan.Tidy tokens → Again settings tokens execute r r' →
      Unfolds settings tokens execute n r' → Unfolds settings tokens execute (n + 1) r
  | ended {n : Nat} {r r' : Run σ} : r.plan.Tidy tokens → r.turn settings tokens execute = .ended r' →
      Unfolds settings tokens execute (n + 1) r

theorem unfolds (settings : Settings) (execute : Executor σ) (n : Nat) {r : Run σ}
    (hr : r.plan.Tidy tokens) : Unfolds settings tokens execute n r := by
  induction n generalizing r with
  | zero => exact .zero r
  | succ n ih =>
    cases ht : r.turn settings tokens execute with
    | again r' =>
      have hagain : Again settings tokens execute r r' := ht
      exact .again hr hagain (ih ((hagain.reaches hr).tidy hr))
    | ended r' => exact .ended hr ht
    | lost id => exact absurd ht (turn_ne_lost r id)

theorem Unfolds.ends {n : Nat} (h : Unfolds settings tokens execute n r)
    (hn : r.plan.work settings < n) :
    ∃ q r', ReflTransGen (Again settings tokens execute) r q ∧
      q.turn settings tokens execute = .ended r' ∧
      turns settings tokens execute n r = some (.ok r') := by
  induction h with
  | zero => omega
  | again hr hagain _ ih =>
    have hwork := hagain.work_lt hr
    obtain ⟨q, r', hreach, hended, hturns⟩ := ih (by omega)
    exact ⟨q, r', .head hagain hreach, hended, (turns_of_again hagain).trans hturns⟩
  | @ended _ r r' _ hended => exact ⟨r, r', .refl, hended, turns_of_ended hended⟩

/-- A turn that hands out a step takes it out of the work that is left. -/
theorem Unfolds.length_handovers_le {n : Nat} (h : Unfolds settings tokens execute n r) :
    ((r.starts settings tokens execute n).filterMap handover?).length ≤ r.plan.work settings := by
  induction h with
  | zero => exact Nat.zero_le _
  | again hr hagain _ ih =>
    have hwork := hagain.work_lt hr
    rw [starts_of_again hagain, List.filterMap_cons]
    split
    · omega
    · rw [List.length_cons]
      omega
  | @ended _ r _ hr hended =>
    have hwork := work_skipDoomed_le settings hr
    rw [starts_of_ended hended, List.filterMap_cons, List.filterMap_nil, handover?]
    cases hs : r.skipDoomed.plan.nextReady? with
    | none => exact Nat.zero_le _
    | some s =>
      have hsome := Plan.work_pos_of_ready settings hs
      rw [Option.map_some, List.length_singleton]
      omega

/-- Every repair so far has been followed, and the plan has counted it. -/
structure Counted (settings : Settings) (count : Nat) (r : Run σ) : Prop where
  count_eq : r.plan.repairCount = count + r.repairs.length
  length_le : r.repairs.length ≤ settings.maxRepairs - count
  canContinue : ∀ repair ∈ r.repairs, repair.canContinue = true

theorem Counted.again {count : Nat} (hc : Counted settings count r) (hr : r.plan.ids.Nodup)
    (h : Again settings tokens execute r r') : Counted settings count r' := by
  obtain ⟨hrepairs, hcount⟩ := repairs_skipDoomed hr
  have hdistinct := nodup_skipDoomed hr
  have hacts := turn_acts settings tokens execute r
  rw [h] at hacts
  cases hacts with
  | complete hs =>
    exact {
      count_eq := by
        simp only [Plan.repairCount_complete hs hdistinct, hcount, hrepairs, hc.count_eq]
      length_le := hrepairs ▸ hc.length_le
      canContinue := hrepairs ▸ hc.canContinue }
  | repair hs _ _ hlimit =>
    have hbefore := hc.count_eq
    exact {
      count_eq := by
        simp only [Plan.repairCount_repaired, hcount, hrepairs, List.length_append,
          List.length_singleton]
        omega
      length_le := by
        simp only [hrepairs, List.length_append, List.length_singleton]
        omega
      canContinue := fun repair hrepair => by
        simp only [hrepairs, List.mem_append, List.mem_singleton] at hrepair
        rcases hrepair with hold | rfl
        · exact hc.canContinue repair hold
        · exact canContinue_repairOf.2 hlimit }

theorem Counted.of_again {count : Nat} (hc : Counted settings count r)
    (hr : r.plan.Tidy tokens) (h : ReflTransGen (Again settings tokens execute) r r') :
    Counted settings count r' := by
  induction h with
  | refl => exact hc
  | tail hreach hagain ih =>
    exact ih.again ((reaches_of_again hreach hr).tidy hr).distinct hagain

/-- The repair that gives up is not one to be followed, and the plan does not count it. -/
theorem Counted.ended {count : Nat} (hc : Counted settings count r) (hr : r.plan.ids.Nodup)
    (h : r.turn settings tokens execute = .ended r') :
    r'.plan.repairCount = count + (r'.repairs.filter (·.canContinue)).length ∧
      (r'.repairs.filter (·.canContinue)).length ≤ settings.maxRepairs - count ∧
      r'.repairs.length ≤ settings.maxRepairs - count + 1 := by
  have hcount := (repairs_skipDoomed hr).2
  have hall : r.repairs.filter (·.canContinue) = r.repairs := List.filter_eq_self.2 hc.canContinue
  have hbefore := hc.count_eq
  have hle := hc.length_le
  rcases turn_ended h hr with ⟨-, hplan, hrepairs⟩ | ⟨s, repair, -, -, hplan, hrepairs, -, hno⟩
  · have hsame : r'.plan.repairCount = r.plan.repairCount := hplan ▸ hcount
    rw [hrepairs, hall, hsame]
    omega
  · have hsame : r'.plan.repairCount = r.plan.repairCount := by
      rw [hplan, Plan.repairCount_aborted, hcount]
    have hone : [repair].filter (·.canContinue) = [] := by simp [hno]
    rw [hrepairs, List.filter_append, hall, hone, hsame, List.append_nil, List.length_append,
      List.length_singleton]
    omega

end Run

namespace Plan

variable {σ : Type _} {settings : Settings} {tokens : Nat → String} {execute : Executor σ}
  {spare : Nat} {kept : σ} {p : Plan}

theorem work_lt_maxTurns (settings : Settings) (spare : Nat) (p : Plan) :
    p.work settings < p.maxTurns settings + spare := by
  unfold work maxTurns
  omega

theorem run_ends (settings : Settings) (execute : Executor σ) (spare : Nat) (kept : σ)
    (hp : p.refusal? = none) (ht : p.Tidy tokens) :
    ∃ q r, ReflTransGen (Run.Again settings tokens execute) (p.opened kept) q ∧
      q.turn settings tokens execute = .ended r ∧
      p.run settings tokens execute spare kept = some (.ok r) := by
  rw [run_eq_turns hp]
  exact (Run.unfolds settings execute _ (tidy_opened ht)).ends (work_lt_maxTurns settings spare p)

theorem run_recording {r : Run σ} (hp : p.refusal? = none)
    (h : p.run settings tokens execute spare kept = some (.ok r)) :
    p.run settings tokens execute.recording spare (kept, []) = some (.ok (r.withCalls
      ((p.handovers settings tokens execute spare kept).map (·.2)))) := by
  rw [run_eq_turns hp] at h ⊢
  rw [handovers, starts_eq hp]
  exact Run.turns_recording [] h

/-- A run comes to an end, and the limit of repairs bounds both the repairs and what is handed out. -/
theorem run_bounded (settings : Settings) (tokens : Nat → String) (execute : Executor σ)
    (spare : Nat) (kept : σ) (p : Plan) (hp : p.refusal? = none) (ht : p.Tidy tokens) :
    ∃ r, p.run settings tokens execute spare kept = some (.ok r) ∧
      r.plan.repairCount = p.repairCount + (r.repairs.filter (·.canContinue)).length ∧
      (r.repairs.filter (·.canContinue)).length ≤ settings.maxRepairs - p.repairCount ∧
      r.repairs.length ≤ settings.maxRepairs - p.repairCount + 1 ∧
      (∃ calls, p.run settings tokens execute.recording spare (kept, []) =
          some (.ok (r.withCalls calls)) ∧
        calls.length ≤ p.pending.length +
          (settings.maxRepairs - p.repairCount) * max 2 settings.splitParts) ∧
      ∀ q ∈ p.starts settings tokens execute spare kept, q.skipDoomed.plan.doomed = [] := by
  obtain ⟨q, r, hreach, hended, hrun⟩ := run_ends settings execute spare kept hp ht
  have hopened : (p.opened kept).plan.Tidy tokens := tidy_opened ht
  have hfirst : Run.Counted settings p.repairCount (p.opened kept) :=
    ⟨rfl, Nat.zero_le _, fun _ h => nomatch h⟩
  have hq : q.plan.Tidy tokens := (Run.reaches_of_again hreach hopened).tidy hopened
  obtain ⟨hcount, hfollowed, hmade⟩ := (hfirst.of_again hopened hreach).ended hq.distinct hended
  refine ⟨r, hrun, hcount, hfollowed, hmade, ⟨_, run_recording hp hrun, ?_⟩, fun q hq => ?_⟩
  · rw [List.length_map, handovers, starts_eq hp]
    exact (Run.unfolds settings execute _ hopened).length_handovers_le
  · rw [starts_eq hp] at hq
    have hreach := Run.reaches_of_again (Run.mem_starts hq) hopened
    exact Run.doomed_skipDoomed q (hreach.tidy hopened).distinct

/-- Every step fails, and the run still ends. -/
theorem run_bounded_pair : (pair.refusal? = none ∧ pair.Tidy fun _ => "t") ∧
    ∃ r, pair.run {} (fun _ => "t") (fun _ (_ : Unit) => (.failure "", ())) 0 () =
      some (.ok r) ∧ r.repairs.length ≤ 4 := by
  have hpair : pair.Tidy fun _ => "t" := tidy_pair _
  obtain ⟨r, hrun, -, -, hmade, -⟩ := run_bounded {} (fun _ => "t")
    (fun _ (_ : Unit) => (.failure "", ())) 0 () pair rfl hpair
  exact ⟨⟨rfl, hpair⟩, r, hrun, hmade⟩

end Plan

end WorkbookPlan
