import WorkbookPlan.Proofs.Run.Orderly
import WorkbookPlan.Proofs.Run.Termination

/-! Dependencies are respected: the executor gets each step once, as the first ready one, and what a
decision rests on does not change behind it. -/
namespace WorkbookPlan

open Step Relation

namespace Plan

/-- The step is pending with all its dependencies satisfied, and no step before it is. -/
def IsFirstReady (p : Plan) (s : Step) : Prop :=
  ∃ before after, p.steps = before ++ s :: after ∧
    (s.status = .pending ∧ ∀ d ∈ s.dependsOn, p.dependencyState d = .satisfied) ∧
    ∀ t ∈ before,
      ¬ (t.status = .pending ∧ ∀ d ∈ t.dependsOn, p.dependencyState d = .satisfied)

/-- A step bears the name, or waits for it. -/
def Mentions (p : Plan) (id : StepId) : Prop :=
  ∃ s ∈ p.steps, id = s.id ∨ id ∈ s.dependsOn

/-- What the plan mentions and is satisfied stays satisfied, and what is dead stays dead. -/
def Keeps (p q : Plan) : Prop :=
  ∀ id, p.Mentions id →
    (p.dependencyState id = .satisfied → q.dependencyState id = .satisfied) ∧
    (p.dependencyState id = .dead → q.dependencyState id = .dead)

/-- A plan of the same run, further on. -/
def Follows (settings : Settings) (tokens : Nat → String) (p q : Plan) : Prop :=
  Reaches settings tokens p q ∨ ∃ m, Reaches settings tokens p m ∧ Close settings m q

variable {settings : Settings} {tokens : Nat → String} {p q : Plan}

theorem isFirstReady_of_nextReady {s : Step} (h : p.nextReady? = some s) : p.IsFirstReady s := by
  have hcheck : ∀ t : Step, (t.isPending && p.isReady t) = true ↔
      t.status = .pending ∧ ∀ d ∈ t.dependsOn, p.dependencyState d = .satisfied := fun t => by
    rw [Bool.and_eq_true, isReady_iff, isPending, beq_iff_eq]
  obtain ⟨hs, before, after, hsteps, hbefore⟩ := List.find?_eq_some_iff_append.1 h
  refine ⟨before, after, hsteps, (hcheck s).1 hs, fun t ht hready => ?_⟩
  have hnot := hbefore t ht
  simp [(hcheck t).2 hready] at hnot

theorem Clear.not_minted (hp : p.Clear tokens) {id : StepId} (h : p.Mentions id) :
    ¬ Minted tokens p.repairCount id := by
  obtain ⟨s, hs, rfl | hd⟩ := h
  · exact hp.fresh s.id (id_mem_ids hs)
  · exact hp.unclaimed s hs id hd

/-- A step that is not pending is never the next again. -/
theorem id_ne_of_done (h : Reaches settings tokens p q) (hp : p.Tidy tokens) {id : StepId}
    {t s : Step} (ht : p.step? id = some t) (hdone : t.isPending = false)
    (hs : q.nextReady? = some s) : s.id ≠ id := by
  rintro rfl
  obtain ⟨hmem, hpending, -⟩ := nextReady?_eq_some hs
  obtain ⟨u, hu, -, hstatus⟩ := (Reaches.evolves h hp).step ht
  rw [step?_of_mem (Reaches.tidy h hp).distinct hmem] at hu
  obtain rfl := Option.some.inj hu
  rw [isPending, hstatus hdone] at hpending
  exact absurd hdone (by simpa [isPending] using hpending)

theorem Follows.head {r : Plan} (hpq : Reaches settings tokens p q)
    (hqr : Follows settings tokens q r) : Follows settings tokens p r := by
  rcases hqr with hreach | ⟨m, hreach, hclose⟩
  · exact .inl (hpq.trans hreach)
  · exact .inr ⟨m, hpq.trans hreach, hclose⟩

theorem Follows.clear (h : Follows settings tokens p q) (hp : p.Clear tokens) :
    q.Clear tokens := by
  rcases h with hreach | ⟨m, hreach, hclose⟩
  · exact hreach.clear hp
  · exact hclose.clear (hreach.clear hp)

theorem Follows.evolves (h : Follows settings tokens p q) (hp : p.Tidy tokens) :
    Evolves tokens p q := by
  rcases h with hreach | ⟨m, hreach, hclose⟩
  · exact hreach.evolves hp
  · exact (hreach.evolves hp).trans (hclose.evolves (hreach.tidy hp).distinct)

theorem Follows.linked (h : Follows settings tokens p q) (hp : p.Tidy tokens) (hl : p.Linked) :
    q.Linked := by
  rcases h with hreach | ⟨m, hreach, hclose⟩
  · exact hreach.linked hp hl
  · exact hclose.linked (hreach.tidy hp).distinct (hreach.linked hp hl)

theorem Follows.keeps (h : Follows settings tokens p q) (hp : p.Clear tokens) (hl : p.Linked) :
    p.Keeps q := by
  intro id hid
  have hsame := (h.evolves hp.toTidy).dependencyState_eq hl (h.linked hp.toTidy hl)
    (hp.not_minted hid)
  constructor
  · intro hstate
    rw [hsame (by simp [hstate]), hstate]
  · intro hstate
    rw [hsame (by simp [hstate]), hstate]

end Plan

namespace Run

variable {σ : Type _} {settings : Settings} {tokens : Nat → String} {execute : Executor σ}

theorem roundPlans_succ (n : Nat) (r : Run σ) (hr : r.plan.ids.Nodup) :
    roundPlans (n + 1) r =
      if r.plan.doomed = [] then [r.plan] else r.plan :: roundPlans n r.skipRound := by
  have hround : r.plan.doomed.foldl skip r = r.skipRound := foldl_skip_filter r hr _
  rw [← hround]
  cases h : r.plan.doomed with
  | nil => simp [roundPlans, h]
  | cons s rest => simp [roundPlans, h]

/-- The rounds of skipping go from the first of these plans to the last. -/
theorem roundPlans_reaches (n : Nat) (r : Run σ) (hr : r.plan.ids.Nodup) :
    (skipRounds n r).plan ∈ roundPlans n r ∧
      (∀ p ∈ roundPlans n r, Plan.Reaches settings tokens r.plan p ∧
        Plan.Reaches settings tokens p (skipRounds n r).plan) ∧
      (roundPlans n r).Pairwise (Plan.Reaches settings tokens) := by
  induction n generalizing r with
  | zero =>
    refine ⟨List.mem_singleton.2 rfl, fun p hp => ?_, List.pairwise_singleton ..⟩
    obtain rfl := List.mem_singleton.1 hp
    exact ⟨.refl, .refl⟩
  | succ n ih =>
    rw [roundPlans_succ n r hr, skipRounds_succ n r hr]
    split
    · refine ⟨List.mem_singleton.2 rfl, fun p hp => ?_, List.pairwise_singleton ..⟩
      obtain rfl := List.mem_singleton.1 hp
      exact ⟨.refl, .refl⟩
    · next hdoomed =>
      have hround : r.skipRound.plan.ids = r.plan.ids := Plan.ids_skipWhere ..
      have hmove : Plan.Move settings tokens r.plan r.skipRound.plan := .skip hdoomed
      obtain ⟨hmem, hreach, hpairs⟩ := ih r.skipRound (hround ▸ hr)
      refine ⟨List.mem_cons_of_mem _ hmem, fun p hp => ?_, List.pairwise_cons.2 ⟨?_, hpairs⟩⟩
      · rcases List.mem_cons.1 hp with rfl | hp
        · exact ⟨.refl, .head hmove (hreach _ hmem).1⟩
        · exact ⟨.head hmove (hreach p hp).1, (hreach p hp).2⟩
      · exact fun p hp => .head hmove (hreach p hp).1

theorem decisions_reaches (settings : Settings) (tokens : Nat → String) (r : Run σ)
    (hr : r.plan.ids.Nodup) :
    r.skipDoomed.plan ∈ r.decisions ∧
      (∀ p ∈ r.decisions, Plan.Reaches settings tokens r.plan p ∧
        Plan.Reaches settings tokens p r.skipDoomed.plan) ∧
      r.decisions.Pairwise (Plan.Reaches settings tokens) :=
  roundPlans_reaches _ r hr

theorem turn_closes {r r' : Run σ} (h : r.turn settings tokens execute = .ended r')
    (hr : r.plan.ids.Nodup) : Plan.Close settings r.skipDoomed.plan r'.plan := by
  have hdoomed := doomed_skipDoomed r hr
  rcases turn_ended h hr with ⟨hnone, hplan, -⟩ | ⟨s, _, hs, hlimit, hplan, -⟩
  · exact hplan ▸ .finish hdoomed hnone
  · exact hplan ▸ .abort hdoomed hs hlimit

/-- Of the plans that a run decides on, and the one it leaves, each is further on than those before
it. -/
theorem Unfolds.pairwise_follows {n : Nat} {r r' : Run σ}
    (hn : Unfolds settings tokens execute n r)
    (h : turns settings tokens execute n r = some (.ok r')) :
    (∀ p ∈ (r.starts settings tokens execute n).flatMap decisions ++ [r'.plan],
        Plan.Follows settings tokens r.plan p) ∧
      ((r.starts settings tokens execute n).flatMap decisions ++ [r'.plan]).Pairwise
        (Plan.Follows settings tokens) := by
  induction hn with
  | zero => simp [turns] at h
  | @again _ r _ hr hagain _ ih =>
    obtain ⟨-, hreach, hpairs⟩ := decisions_reaches settings tokens r hr.distinct
    have hmove := hagain.move hr
    rw [turns_of_again hagain] at h
    obtain ⟨hrest, hrestPairs⟩ := ih h
    rw [starts_of_again hagain, List.flatMap_cons, List.append_assoc]
    refine ⟨fun p hp => ?_,
      List.pairwise_append.2 ⟨hpairs.imp .inl, hrestPairs, fun p hp q hq => ?_⟩⟩
    · rcases List.mem_append.1 hp with hp | hp
      · exact .inl (hreach p hp).1
      · exact .head (hagain.reaches hr) (hrest p hp)
    · exact .head ((hreach p hp).2.tail hmove) (hrest q hq)
  | @ended _ r _ hr hended =>
    obtain ⟨-, hreach, hpairs⟩ := decisions_reaches settings tokens r hr.distinct
    have hclose := turn_closes hended hr.distinct
    rw [turns_of_ended hended] at h
    obtain rfl := Except.ok.inj (Option.some.inj h)
    rw [starts_of_ended hended, List.flatMap_singleton]
    refine ⟨fun p hp => ?_, List.pairwise_append.2
      ⟨hpairs.imp .inl, List.pairwise_singleton .., fun p hp q hq => ?_⟩⟩
    · rcases List.mem_append.1 hp with hp | hp
      · exact .inl (hreach p hp).1
      · obtain rfl := List.mem_singleton.1 hp
        exact .inr ⟨_, skipDoomed_reaches settings tokens r hr.distinct, hclose⟩
    · obtain rfl := List.mem_singleton.1 hq
      exact .inr ⟨_, (hreach p hp).2, hclose⟩

/-- The step that a turn hands out is not pending behind it. -/
theorem Acts.not_pending {r r' : Run σ} (h : Acts settings tokens execute r (.again r'))
    (hr : r.plan.Tidy tokens) {s : Step} (hs : r.plan.nextReady? = some s) :
    ∃ t, r'.plan.step? s.id = some t ∧ t.isPending = false := by
  have hmem := (Plan.nextReady?_eq_some hs).1
  cases h with
  | @complete u o kept hu =>
    obtain rfl : s = u := Option.some.inj (hs.symm.trans hu)
    have hadvances := Plan.advances_complete hs hr.distinct
    exact ⟨_, hadvances.step?_of_marked hmem (by simp), rfl⟩
  | @repair u o kept hu _ _ hlimit =>
    obtain rfl : s = u := Option.some.inj (hs.symm.trans hu)
    have hfits := Plan.fits_of_count tokens s (o.error.getD "")
      (count_context r.plan s.id o) hlimit
    have hadvances := hr.advances_of_fits hs hfits
    exact ⟨_, hadvances.step?_of_marked hmem (by simp), rfl⟩

/-- So no later turn hands it out again. -/
theorem Again.id_ne {n : Nat} {r r' : Run σ} (hagain : Again settings tokens execute r r')
    (hr : r.plan.Tidy tokens) {h h' : Plan × Step} (hh : r.handover? = some h)
    (hh' : h' ∈ (r'.starts settings tokens execute n).filterMap handover?) : h'.2.id ≠ h.2.id := by
  obtain ⟨q, hq, hlater⟩ := List.mem_filterMap.1 hh'
  have hr' : r'.plan.Tidy tokens := (hagain.reaches hr).tidy hr
  have hskip := skipDoomed_reaches settings tokens r hr.distinct
  have hacts := turn_acts settings tokens execute r
  rw [hagain] at hacts
  obtain ⟨t, ht, hdone⟩ := hacts.not_pending (hskip.tidy hr) (handover?_eq_some hh).2
  have hreach := reaches_of_again (mem_starts hq) hr'
  have hway := hreach.trans (skipDoomed_reaches settings tokens q (hreach.tidy hr').distinct)
  exact Plan.id_ne_of_done hway hr' ht hdone (handover?_eq_some hlater).2

theorem Unfolds.nodup_handovers {n : Nat} {r : Run σ} (hn : Unfolds settings tokens execute n r) :
    (((r.starts settings tokens execute n).filterMap handover?).map (·.2.id)).Nodup := by
  induction hn with
  | zero => exact .nil
  | @again _ r _ hr hagain _ ih =>
    rw [starts_of_again hagain, List.filterMap_cons]
    split
    · exact ih
    · next h hh =>
      refine List.nodup_cons.2 ⟨fun hmem => ?_, ih⟩
      obtain ⟨h', hh', hid⟩ := List.mem_map.1 hmem
      exact hagain.id_ne hr hh hh' hid
  | @ended _ r _ _ hended =>
    rw [starts_of_ended hended, List.filterMap_cons, List.filterMap_nil]
    split
    · exact .nil
    · exact List.nodup_singleton _

end Run

namespace Plan

variable {σ : Type _}

/-- Each step handed out is the first ready one at that moment, none is handed out twice, and what
is satisfied or dead stays so. -/
theorem run_respects_dependencies (settings : Settings) (tokens : Nat → String)
    (execute : Executor σ) (spare : Nat) (kept : σ) (task taskKind : String) (steps : List Step)
    (hclear : (ofSteps task taskKind steps).Clear tokens) :
    let p := ofSteps task taskKind steps
    ∃ r, p.run settings tokens execute spare kept = some (.ok r) ∧
      p.run settings tokens execute.recording spare (kept, []) = some (.ok (r.withCalls
        ((p.handovers settings tokens execute spare kept).map (·.2)))) ∧
      (∀ h ∈ p.handovers settings tokens execute spare kept,
        h.1 ∈ p.course settings tokens execute spare kept ∧ h.1.IsFirstReady h.2) ∧
      ((p.handovers settings tokens execute spare kept).map (·.2.id)).Nodup ∧
      (p.course settings tokens execute spare kept).Pairwise Keeps ∧
      (p.course settings tokens execute spare kept).getLast? = some r.plan := by
  intro p
  have hp : p.refusal? = none := rfl
  have hopened : (p.opened kept).plan.Clear tokens := clear_opened hclear
  have hlinked : (p.opened kept).plan.Linked := linked_of_no_stand_ins fun _ => rfl
  have hunfolds := Run.unfolds settings execute (p.maxTurns settings + spare) hopened.toTidy
  obtain ⟨-, r, -, -, hrun⟩ := run_ends settings execute spare kept hp hclear.toTidy
  have hcourse : p.course settings tokens execute spare kept =
      ((p.opened kept).starts settings tokens execute (p.maxTurns settings + spare)).flatMap
        Run.decisions ++ [r.plan] := by
    simp only [course, hrun, starts_eq hp]
  have hhandovers : p.handovers settings tokens execute spare kept =
      ((p.opened kept).starts settings tokens execute (p.maxTurns settings + spare)).filterMap
        Run.handover? := by
    rw [handovers, starts_eq hp]
  have hready : ∀ h ∈ p.handovers settings tokens execute spare kept,
      h.1 ∈ p.course settings tokens execute spare kept ∧ h.1.IsFirstReady h.2 := by
    intro h hh
    rw [hhandovers] at hh
    obtain ⟨q, hq, hhand⟩ := List.mem_filterMap.1 hh
    obtain ⟨hplan, hnext⟩ := Run.handover?_eq_some hhand
    have hreach := Run.reaches_of_again (Run.mem_starts hq) hopened.toTidy
    have hdistinct : q.plan.ids.Nodup := (hreach.tidy hopened.toTidy).distinct
    have hdecides := (Run.decisions_reaches settings tokens q hdistinct).1
    rw [hplan, hcourse]
    exact ⟨List.mem_append_left _ (List.mem_flatMap.2 ⟨q, hq, hdecides⟩),
      isFirstReady_of_nextReady hnext⟩
  have honce : ((p.handovers settings tokens execute spare kept).map (·.2.id)).Nodup := by
    rw [hhandovers]
    exact hunfolds.nodup_handovers
  have hkeeps : (p.course settings tokens execute spare kept).Pairwise Keeps := by
    have hturns := run_eq_turns hp ▸ hrun
    obtain ⟨hfollows, hpairs⟩ := hunfolds.pairwise_follows hturns
    rw [hcourse]
    refine hpairs.imp_of_mem fun ha _ hab => hab.keeps ?_ ?_
    · exact (hfollows _ ha).clear hopened
    · exact (hfollows _ ha).linked hopened.toTidy hlinked
  have hlast : (p.course settings tokens execute spare kept).getLast? = some r.plan := by
    rw [hcourse, List.getLast?_append]
    rfl
  exact ⟨r, hrun, run_recording hp hrun, hready, honce, hkeeps, hlast⟩

/-- The first step fails, so the second is handed out behind the step that replaces the first. -/
theorem run_respects_dependencies_pair : (ofSteps "" "" pair.steps).Clear (fun _ => "t") ∧
    ∃ r, pair.run {} (fun _ => "t") (failing ["a"]) 0 () = some (.ok r) ∧
      pair.run {} (fun _ => "t") (failing ["a"]).recording 0 ((), []) = some (.ok (r.withCalls
        ((pair.handovers {} (fun _ => "t") (failing ["a"]) 0 ()).map (·.2)))) ∧
      (pair.handovers {} (fun _ => "t") (failing ["a"]) 0 ()).map (fun h => (h.1.ids, h.2.id)) =
        [(["a", "b"], "a"), (["a", "b", "r1_t_1"], "r1_t_1"), (["a", "b", "r1_t_1"], "b")] ∧
      (pair.course {} (fun _ => "t") (failing ["a"]) 0 ()).Pairwise Keeps ∧
      r.states = [("a", .failed), ("b", .completed), ("r1_t_1", .completed)] := by
  have hclear : (ofSteps "" "" pair.steps).Clear (fun _ => "t") := clear_pair _
  obtain ⟨r, hrun, hrecording, -, -, hkeeps, -⟩ := run_respects_dependencies {} (fun _ => "t")
    (failing ["a"]) 0 () "" "" pair.steps hclear
  have hhandovers : (pair.handovers {} (fun _ => "t") (failing ["a"]) 0 ()).map
      (fun h => (h.1.ids, h.2.id)) =
        [(["a", "b"], "a"), (["a", "b", "r1_t_1"], "r1_t_1"), (["a", "b", "r1_t_1"], "b")] := by
    decide +kernel
  have hstates : r.states = [("a", .failed), ("b", .completed), ("r1_t_1", .completed)] :=
    value_of_run hrun Run.states (by decide +kernel)
  exact ⟨hclear, r, hrun, hrecording, hhandovers, hkeeps, hstates⟩

end Plan

end WorkbookPlan
