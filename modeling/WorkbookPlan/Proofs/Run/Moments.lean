import Mathlib.Data.List.Infix
import WorkbookPlan.Proofs.Plan.Earned
import WorkbookPlan.Proofs.Run.Termination

/-! The moments of a run, down to the single marks within a turn. At each of them the work was earned,
so a failed step counts as satisfied only if all steps of its repair do. -/
namespace WorkbookPlan

open Step Relation

namespace Run

variable {σ : Type _}

def failures (r : Run σ) : List StepId :=
  (r.records.filter (·.status == .failed)).map (·.stepId)

def mended (r : Run σ) : List (StepId × Repair) :=
  r.failures.zip r.repairs

/-- Before the first of some steps is skipped, and behind each of them. -/
def skips (r : Run σ) (steps : List Step) : List (Run σ) :=
  steps.inits.map (·.foldl skip r)

def roundMoments : Nat → Run σ → List (Run σ)
  | 0, r => [r]
  | n + 1, r =>
    match r.plan.doomed with
    | [] => [r]
    | doomed => r.skips doomed ++ roundMoments n (doomed.foldl skip r)

/-- Behind the rounds of skipping: while a step is run, and when its failure is taken down but not
repaired yet. If no step is ready, while the steps left are skipped. -/
def actMoments (execute : Executor σ) (r : Run σ) : List (Run σ) :=
  match r.plan.nextReady? with
  | none => r.skips r.plan.pending
  | some s =>
    let running : Run σ := { r with plan := r.plan.markRunning s.id }
    let (o, kept) := execute s r.kept
    if o.success then [running]
    else
      [running,
        { running with
          plan := running.plan.markFailed s.id
          kept := kept
          records := r.records ++ [.ofOutcome s .failed o] }]

/-- All moments of a turn, the one behind it included. -/
def turnMoments (settings : Settings) (tokens : Nat → String) (execute : Executor σ) (r : Run σ) :
    List (Run σ) :=
  r.roundMoments r.plan.pending.length ++ r.skipDoomed.actMoments execute ++
    match r.turn settings tokens execute with
    | .again r' | .ended r' => [r']
    | .lost _ => []

end Run

def Plan.moments {σ : Type _} (settings : Settings) (tokens : Nat → String) (execute : Executor σ)
    (spare : Nat) (kept : σ) (p : Plan) : List (Run σ) :=
  (p.starts settings tokens execute spare kept).flatMap (Run.turnMoments settings tokens execute)

namespace Plan

variable {settings : Settings} {tokens : Nat → String} {old : List StepId} {p : Plan} {s : Step}

theorem advances_markRunning (hs : p.nextReady? = some s) (hp : p.ids.Nodup) :
    Advances p (p.markRunning s.id) .running (·.id == s.id) [] := by
  have heq := markRunning_eq (id_mem_ids (nextReady?_eq_some hs).1)
  refine advances_of_mark hp hs (by decide) ?_ (by rw [heq])
  rw [heq]
  exact setStatus_eq_markWhere hp

theorem advances_fail (hs : p.nextReady? = some s) (hp : p.ids.Nodup) :
    Advances p (p.fail s.id) .failed (·.id == s.id) [] := by
  have heq := fail_eq_of_ready hs hp
  exact advances_of_mark hp hs (by decide) (by rw [heq]) (by rw [heq])

/-- What is marked after it was handed out was ready. -/
theorem earns_of_ready (hs : p.nextReady? = some s) (hp : p.ids.Nodup) (status : Status) :
    p.Earns status (·.id == s.id) := by
  intro _ t ht hid
  obtain ⟨hmem, -, hready⟩ := nextReady?_eq_some hs
  obtain rfl := eq_of_id_eq hp ht hmem (by simpa using hid)
  exact isReady_iff.1 hready

theorem earns_of_not_run {status : Status} (hstatus : status ≠ .completed ∧ status ≠ .failed)
    (which : Step → Bool) : p.Earns status which :=
  fun h => absurd h (not_or.2 hstatus)

theorem Linked.no_stand_in (hp : p.Linked) (hd : p.ids.Nodup) (hs : p.nextReady? = some s) :
    p.supersessions.get? s.id = none := by
  obtain ⟨hmem, hpending, -⟩ := nextReady?_eq_some hs
  refine Option.eq_none_iff_forall_ne_some.2 fun next hnext => ?_
  obtain ⟨t, ht, hfailed⟩ := hp.failed hnext
  obtain rfl := Option.some.inj ((step?_of_mem hd hmem).symm.trans ht)
  simp [isPending, hfailed] at hpending

theorem get?_repaired_self (hp : p.Linked) (hd : p.ids.Nodup) (hs : p.nextReady? = some s)
    {m : Mint} {failed : Step} {parts : Nat} {r : Repair} (hfits : r.patch.Fits m failed parts) :
    (p.repaired s r).supersessions.get? s.id = r.replacement := by
  have hnone := hp.no_stand_in hd hs
  have heq := fail_eq_of_ready hs hd
  simp only [repaired, extend, heq]
  cases hr : r.replacement with
  | none => simpa using hnone
  | some b =>
    have hname : r.replacement = some (m.id r.newSteps.length) :=
      hfits.replacement.resolve_left (by simp [Repair.patch, hr])
    have hpos : 0 < r.newSteps.length := List.length_pos_of_ne_nil hfits.nonempty
    have hmem : b ∈ r.newSteps.map (·.id) := by
      refine hfits.mem_ids.2 ⟨r.newSteps.length - 1, by simp only [Repair.patch]; omega, ?_⟩
      rw [Nat.sub_add_cancel hpos]
      exact Option.some.inj (hr.symm.trans hname)
    simp [Option.filter, hmem]

theorem mended_repaired (hp : p.Earned old) (ht : p.Tidy tokens) (hs : p.nextReady? = some s)
    {parts : Nat} {r : Repair}
    (hfits : r.patch.Fits ⟨p.repairCount + 1, tokens (p.repairCount + 1)⟩ s parts) :
    (p.repaired s r).Mended old s.id r := by
  have hnodup := ht.nodup_append hfits
  have hadvances := ht.advances_of_fits hs hfits
  have hmem := (nextReady?_eq_some hs).1
  refine ⟨⟨_, hadvances.step?_of_marked hmem (by simp), rfl⟩,
    get?_repaired_self hp.toLinked ht.distinct hs hfits, ⟨_, _, _, hfits⟩, fun t hnew => ⟨?_, ?_⟩⟩
  · intro hold
    exact (List.nodup_append.1 hnodup).2.2 _ (hp.known _ hold) _ (List.mem_map_of_mem hnew) rfl
  · obtain ⟨i, hi⟩ := List.mem_iff_getElem?.1 hnew
    obtain ⟨u, hu, hid, hdeps⟩ := exists_mem_renumber (placeBehind (p.fail s.id).lastOrder) hi
    exact ⟨u, hid ▸ step?_of_mem hadvances.distinct (hadvances.mem_steps.2 (.inr (.inr hu))), hdeps⟩

end Plan

namespace Run

variable {σ : Type _} {settings : Settings} {tokens : Nat → String} {execute : Executor σ}
  {old : List StepId} {r q : Run σ}

/-- The work was earned, and the repairs are those of the first failures. -/
structure Sound (old : List StepId) (r : Run σ) : Prop where
  earned : r.plan.Earned old
  repaired : ∀ m ∈ r.mended, m.2.newSteps = [] ∨ r.plan.Mended old m.1 m.2
  covered : r.repairs.length ≤ r.failures.length

/-- Between two turns each failure has its repair. -/
structure Steady (old : List StepId) (r : Run σ) : Prop extends Sound old r where
  even : r.failures.length = r.repairs.length

theorem failures_append {more : List Record} (h : q.records = r.records ++ more)
    (hmore : ∀ record ∈ more, record.status ≠ .failed) : q.failures = r.failures := by
  have hnone : more.filter (·.status == .failed) = [] :=
    List.filter_eq_nil_iff.2 fun record hr => by simpa using hmore record hr
  rw [failures, h, List.filter_append, hnone, List.append_nil, failures]

theorem failures_append_failed {s : Step} {o : Outcome}
    (h : q.records = r.records ++ [.ofOutcome s .failed o]) : q.failures = r.failures ++ [s.id] := by
  simp [failures, h, Record.ofOutcome]

theorem Sound.advances {status : Status} {which : Step → Bool} {new : List Step}
    (hr : r.Sound old) (h : Plan.Advances r.plan q.plan status which new)
    (hmarked : r.plan.Earns status which)
    (hmended : ∀ m ∈ q.mended, m ∈ r.mended ∨ m.2.newSteps = [] ∨ q.plan.Mended old m.1 m.2)
    (hcovered : q.repairs.length ≤ q.failures.length) : q.Sound old where
  earned := hr.earned.advances h hmarked
  repaired m hm := by
    rcases hmended m hm with hold | hnew
    · exact (hr.repaired m hold).imp_right fun hmends => hmends.grows h.grows
    · exact hnew
  covered := hcovered

/-- A mark that takes down no failure and no repair. -/
theorem Steady.advances {status : Status} {which : Step → Bool} {more : List Record}
    (hr : r.Steady old) (h : Plan.Advances r.plan q.plan status which [])
    (hmarked : r.plan.Earns status which)
    (hrecords : q.records = r.records ++ more) (hmore : ∀ record ∈ more, record.status ≠ .failed)
    (hrepairs : q.repairs = r.repairs) : q.Steady old := by
  have hfailures := failures_append hrecords hmore
  have heven : q.failures.length = q.repairs.length := by rw [hfailures, hrepairs, hr.even]
  have hmended : q.mended = r.mended := by rw [mended, hfailures, hrepairs, mended]
  exact ⟨hr.toSound.advances h hmarked (fun m hm => .inl (hmended ▸ hm)) heven.ge, heven⟩

theorem ids_foldl_skip (hd : r.plan.ids.Nodup) (steps : List Step) :
    (steps.foldl skip r).plan.ids = r.plan.ids := by
  rw [foldl_skip steps r hd]
  exact Plan.ids_skipWhere ..

theorem Steady.foldl_skip {steps : List Step} (hr : r.Steady old) (hd : r.plan.ids.Nodup)
    (hsteps : ∀ s ∈ steps, s ∈ r.plan.steps ∧ s.isPending = true) :
    (steps.foldl skip r).Steady old := by
  rw [Run.foldl_skip steps r hd]
  refine hr.advances (Plan.advances_of_skip hd (fun s hs hw => ?_) rfl rfl)
    (Plan.earns_of_not_run (by decide) _) rfl ?_ rfl
  · obtain ⟨t, ht, hid⟩ := List.mem_map.1 (List.contains_iff_mem.1 hw)
    obtain ⟨hmem, hpending⟩ := hsteps t ht
    rwa [← Plan.eq_of_id_eq hd hmem hs hid]
  · intro record hrecord
    obtain ⟨s, -, rfl⟩ := List.mem_map.1 hrecord
    simp [Record.skipped]

theorem Steady.skips {steps : List Step} (hr : r.Steady old) (hd : r.plan.ids.Nodup)
    (hsteps : ∀ s ∈ steps, s ∈ r.plan.steps ∧ s.isPending = true) :
    ∀ q ∈ r.skips steps, q.Steady old := by
  intro q hq
  obtain ⟨before, hbefore, rfl⟩ := List.mem_map.1 hq
  rw [List.mem_inits] at hbefore
  exact hr.foldl_skip hd fun s hs => hsteps s (hbefore.subset hs)

theorem Steady.roundMoments (n : Nat) (hr : r.Steady old) (hd : r.plan.ids.Nodup) :
    (skipRounds n r).Steady old ∧ ∀ q ∈ r.roundMoments n, q.Steady old := by
  induction n generalizing r with
  | zero => exact ⟨hr, fun q hq => List.mem_singleton.1 hq ▸ hr⟩
  | succ n ih =>
    have hdoomed : ∀ s ∈ r.plan.doomed, s ∈ r.plan.steps ∧ s.isPending = true := fun s hs =>
      ⟨(Plan.mem_doomed.1 hs).1, (Plan.mem_doomed.1 hs).2.1⟩
    have hskip := hr.foldl_skip hd hdoomed
    have hskips := hr.skips hd hdoomed
    unfold skipRounds Run.roundMoments
    cases h : r.plan.doomed with
    | nil => exact ⟨hr, fun q hq => List.mem_singleton.1 hq ▸ hr⟩
    | cons s rest =>
      rw [h] at hskip hskips
      obtain ⟨hend, hrest⟩ := ih hskip (ids_foldl_skip hd _ ▸ hd)
      refine ⟨hend, fun q hq => ?_⟩
      rcases List.mem_append.1 hq with hq | hq
      · exact hskips q hq
      · exact hrest q hq

theorem Steady.skipDoomed (hr : r.Steady old) (hd : r.plan.ids.Nodup) :
    r.skipDoomed.Steady old :=
  (hr.roundMoments _ hd).1

/-- A failure that is taken down without its repair leaves the pairs as they are. -/
theorem mended_of_failed {s : Step} {o : Outcome} (hr : r.failures.length = r.repairs.length)
    (hrecords : q.records = r.records ++ [.ofOutcome s .failed o])
    (hrepairs : q.repairs = r.repairs) : q.mended = r.mended := by
  have happend : (r.failures ++ [s.id]).zip (r.repairs ++ []) =
      r.failures.zip r.repairs ++ [s.id].zip [] := List.zip_append hr
  simpa [mended, failures_append_failed hrecords, hrepairs] using happend

theorem mended_of_repair {s : Step} {o : Outcome} {repair : Repair}
    (hr : r.failures.length = r.repairs.length)
    (hrecords : q.records = r.records ++ [.ofOutcome s .failed o])
    (hrepairs : q.repairs = r.repairs ++ [repair]) : q.mended = r.mended ++ [(s.id, repair)] := by
  rw [mended, failures_append_failed hrecords, hrepairs, List.zip_append hr]
  rfl

theorem Steady.of_failed {s : Step} {o : Outcome} (hr : r.Steady old) (hd : r.plan.ids.Nodup)
    (hs : r.plan.nextReady? = some s) (hplan : q.plan = r.plan.fail s.id)
    (hrecords : q.records = r.records ++ [.ofOutcome s .failed o])
    (hrepairs : q.repairs = r.repairs) : q.Sound old := by
  have hadvances := Plan.advances_fail hs hd
  rw [← hplan] at hadvances
  have hmended := mended_of_failed hr.even hrecords hrepairs
  refine hr.toSound.advances hadvances (Plan.earns_of_ready hs hd _)
    (fun m hm => .inl (hmended ▸ hm)) ?_
  rw [failures_append_failed hrecords, hrepairs, List.length_append, hr.even]
  exact Nat.le_add_right _ _

theorem Steady.actMoments (hr : r.Steady old) (hd : r.plan.ids.Nodup) :
    ∀ q ∈ r.actMoments execute, q.Sound old := by
  intro q hq
  unfold Run.actMoments at hq
  cases hs : r.plan.nextReady? with
  | none =>
    rw [hs] at hq
    exact (hr.skips hd (fun s hs => List.mem_filter.1 hs) q hq).toSound
  | some s =>
    cases he : execute s r.kept with
    | mk o kept =>
      simp only [hs, he] at hq
      have hrunning : ({ r with plan := r.plan.markRunning s.id } : Run σ).Steady old :=
        hr.advances (q := { r with plan := r.plan.markRunning s.id })
          (Plan.advances_markRunning hs hd) (Plan.earns_of_not_run (by decide) _)
          (List.append_nil _).symm
          (fun _ h => nomatch h) rfl
      split at hq
      · exact List.mem_singleton.1 hq ▸ hrunning.toSound
      · rcases List.mem_cons.1 hq with rfl | hq
        · exact hrunning.toSound
        · obtain rfl := List.mem_singleton.1 hq
          exact hr.of_failed hd hs rfl rfl rfl

theorem newSteps_repairOf {p : Plan} {s : Step} {o : Outcome}
    (h : settings.maxRepairs ≤ p.repairCount) : (repairOf settings tokens p s o).newSteps = [] :=
  Repair.newSteps_ofStep (count_context p s.id o ▸ h)

theorem Acts.steady {r' : Run σ} (h : Acts settings tokens execute r (.again r'))
    (hr : r.Steady old) (ht : r.plan.Tidy tokens) : r'.Steady old := by
  cases h with
  | @complete s o kept hs =>
    refine hr.advances (Plan.advances_complete hs ht.distinct)
      (Plan.earns_of_ready hs ht.distinct _) rfl ?_ rfl
    simp [Record.ofOutcome]
  | @repair s o kept hs _ _ hcount =>
    have hfits := Plan.fits_of_count tokens s (o.error.getD "")
      (count_context r.plan s.id o) hcount
    have hmends := Plan.mended_repaired hr.earned ht hs hfits
    have heven : r.failures.length + 1 = r.repairs.length + 1 := congrArg (· + 1) hr.even
    refine ⟨hr.toSound.advances (ht.advances_of_fits hs hfits)
      (Plan.earns_of_ready hs ht.distinct _) (fun m hm => ?_) ?_, ?_⟩
    · rw [mended_of_repair hr.even rfl rfl] at hm
      rcases List.mem_append.1 hm with hold | hnew
      · exact .inl hold
      · exact .inr (.inr (List.mem_singleton.1 hnew ▸ hmends))
    all_goals
      rw [failures_append_failed rfl, List.length_append, List.length_append]
    · exact heven.ge
    · exact heven

theorem Acts.sound {r' : Run σ} (h : Acts settings tokens execute r (.ended r'))
    (hr : r.Steady old) (hd : r.plan.ids.Nodup) : r'.Sound old := by
  cases h with
  | finish =>
    suffices hsteady : r.finish.Steady old from hsteady.toSound
    rw [finish_eq r hd]
    refine hr.advances (Plan.advances_finished hd) (Plan.earns_of_not_run (by decide) _) rfl ?_
      rfl
    intro record hrecord
    obtain ⟨s, -, rfl⟩ := List.mem_map.1 hrecord
    simp [Record.skipped]
  | @abort s o kept hs _ _ hcount =>
    refine hr.toSound.advances (Plan.advances_aborted hs hd)
      (Plan.earns_of_ready hs hd _) (fun m hm => ?_) ?_
    · rw [mended_of_repair hr.even rfl rfl] at hm
      rcases List.mem_append.1 hm with hold | hnew
      · exact .inl hold
      · exact .inr (.inl (List.mem_singleton.1 hnew ▸ newSteps_repairOf hcount))
    · rw [failures_append_failed rfl, List.length_append, List.length_append]
      exact (congrArg (· + 1) hr.even).ge

/-- The repair of a failure that counts as satisfied is done. -/
theorem Sound.satisfied (hr : r.Sound old) {m : StepId × Repair} (hm : m ∈ r.mended)
    (h : r.plan.dependencyState m.1 = .satisfied) :
    ∀ s ∈ m.2.newSteps, r.plan.dependencyState s.id = .satisfied := by
  rcases hr.repaired m hm with hnone | hmends
  · simp [hnone]
  · exact hmends.satisfied hr.earned h

theorem Steady.turnMoments (hr : r.Steady old) (ht : r.plan.Tidy tokens) :
    ∀ q ∈ r.turnMoments settings tokens execute, q.Sound old := by
  have hskipped := hr.skipDoomed ht.distinct
  have hd := nodup_skipDoomed ht.distinct
  have htidy := (skipDoomed_reaches settings tokens r ht.distinct).tidy ht
  have hacts := turn_acts settings tokens execute r
  intro q hq
  rcases List.mem_append.1 hq with hq | hq
  · rcases List.mem_append.1 hq with hq | hq
    · exact ((hr.roundMoments _ ht.distinct).2 q hq).toSound
    · exact hskipped.actMoments hd q hq
  · cases hturn : r.turn settings tokens execute with
    | again r' =>
      rw [hturn] at hq hacts
      exact List.mem_singleton.1 hq ▸ (hacts.steady hskipped htidy).toSound
    | ended r' =>
      rw [hturn] at hq hacts
      exact List.mem_singleton.1 hq ▸ hacts.sound hskipped hd
    | lost id => simp [hturn] at hq

theorem Steady.again (hr : r.Steady old) (ht : r.plan.Tidy tokens)
    (h : Again settings tokens execute r q) : q.Steady old := by
  have hacts := turn_acts settings tokens execute r
  rw [h] at hacts
  exact hacts.steady (hr.skipDoomed ht.distinct)
    ((skipDoomed_reaches settings tokens r ht.distinct).tidy ht)

theorem Steady.of_again (hr : r.Steady old) (ht : r.plan.Tidy tokens)
    (h : ReflTransGen (Again settings tokens execute) r q) : q.Steady old := by
  induction h with
  | refl => exact hr
  | tail hreach hagain ih => exact ih.again ((reaches_of_again hreach ht).tidy ht) hagain

/-- The last moment is the run that is returned. -/
theorem getLast?_moments {n : Nat} {r' : Run σ}
    (h : turns settings tokens execute n r = some (.ok r')) :
    ((r.starts settings tokens execute n).flatMap
      (turnMoments settings tokens execute)).getLast? = some r' := by
  induction n generalizing r with
  | zero => simp [turns] at h
  | succ n ih =>
    rw [turns] at h
    rw [starts, List.flatMap_cons, List.getLast?_append]
    cases ht : r.turn settings tokens execute with
    | again q =>
      rw [ht] at h
      simp only [ih h, Option.some_or]
    | ended q =>
      rw [ht] at h
      obtain rfl : q = r' := by simpa using h
      simp [turnMoments, ht]
    | lost id => simp [ht] at h

end Run

namespace Plan

variable {σ : Type _}

theorem steady_opened (kept : σ) (task taskKind : String) (steps : List Step) :
    ((ofSteps task taskKind steps).opened kept).Steady
      ((steps.filter (!·.isPending)).map (·.id)) where
  earned := by
    have hearned := earned_of_ofSteps task taskKind steps
    have hstate := dependencyState_congr (p := ((ofSteps task taskKind steps).opened kept).plan)
      (q := ofSteps task taskKind steps) rfl rfl
    refine ⟨linked_of_no_stand_ins fun _ => rfl, hearned.known, fun s hs hid hstatus d hd => ?_⟩
    rw [hstate]
    exact hearned.deps s hs hid hstatus d hd
  repaired _ h := nomatch h
  covered := Nat.le_refl 0
  even := rfl

/-- At every moment a failed step is satisfied only if all steps of its repair are, so nothing is
handed out on a repair that is half done. -/
theorem run_completes_repairs (settings : Settings) (tokens : Nat → String)
    (execute : Executor σ) (spare : Nat) (kept : σ) (task taskKind : String) (steps : List Step)
    (ht : (ofSteps task taskKind steps).Tidy tokens) :
    let p := ofSteps task taskKind steps
    ∃ r, p.run settings tokens execute spare kept = some (.ok r) ∧
      (p.moments settings tokens execute spare kept).getLast? = some r ∧
      (∀ q ∈ p.moments settings tokens execute spare kept,
        q.mended.map (·.2) = q.repairs ∧
        ∀ m ∈ q.mended, q.plan.dependencyState m.1 = .satisfied →
          ∀ s ∈ m.2.newSteps, q.plan.dependencyState s.id = .satisfied) ∧
      p.run settings tokens execute.recording spare (kept, []) = some (.ok (r.withCalls
        ((p.handovers settings tokens execute spare kept).map (·.2)))) ∧
      ∀ q ∈ p.starts settings tokens execute spare kept, ∀ h, q.handover? = some h →
        ∀ m ∈ q.skipDoomed.mended, m.1 ∈ h.2.dependsOn → ∀ s ∈ m.2.newSteps,
          ∃ t, h.1.step? s.id = some t ∧ (t.status = .completed ∨ t.status = .failed ∧
            ∃ next, h.1.supersessions.get? s.id = some next ∧
              h.1.dependencyState next = .satisfied) := by
  intro p
  have hp : p.refusal? = none := rfl
  have hopened : (p.opened kept).plan.Tidy tokens := tidy_opened ht
  have hsteady := steady_opened kept task taskKind steps
  obtain ⟨-, r, -, -, hrun⟩ := run_ends settings execute spare kept hp ht
  have hstart : ∀ q ∈ p.starts settings tokens execute spare kept,
      q.plan.Tidy tokens ∧ q.Steady ((steps.filter (!·.isPending)).map (·.id)) := fun q hq => by
    rw [starts_eq hp] at hq
    have hreach := Run.mem_starts hq
    exact ⟨(Run.reaches_of_again hreach hopened).tidy hopened, hsteady.of_again hopened hreach⟩
  have hlast : (p.moments settings tokens execute spare kept).getLast? = some r := by
    rw [moments, starts_eq hp]
    exact Run.getLast?_moments (run_eq_turns hp ▸ hrun)
  have hsound : ∀ q ∈ p.moments settings tokens execute spare kept,
      q.Sound ((steps.filter (!·.isPending)).map (·.id)) := fun q hq => by
    obtain ⟨start, hmem, hq⟩ := List.mem_flatMap.1 hq
    obtain ⟨htidy, hs⟩ := hstart start hmem
    exact hs.turnMoments htidy q hq
  refine ⟨r, hrun, hlast, fun q hq => ?_, run_recording hp hrun,
    fun q hq h hh m hm hwaits s hs => ?_⟩
  · exact ⟨List.map_snd_zip (hsound q hq).covered, fun m hm => (hsound q hq).satisfied hm⟩
  · obtain ⟨htidy, hsteady⟩ := hstart q hq
    obtain ⟨s', hready, rfl⟩ := Option.map_eq_some_iff.1 hh
    have hskipped := (hsteady.skipDoomed htidy.distinct).toSound
    have hdeps := isReady_iff.1 (nextReady?_eq_some hready).2.2
    have hsatisfied := hskipped.satisfied hm (hdeps _ hwaits) s hs
    exact hskipped.earned.completed_or_recovered hsatisfied

/-- The sheet of the first step has to be made before the step is tried again. -/
theorem run_completes_repairs_pair : (ofSteps "" "" pair.steps).Tidy (fun _ => "t") ∧
    ∃ r, pair.run {} (fun _ => "t") (fun s (_ : Unit) =>
        (if s.id = "a" then .failure "Sheet 'Orders' not found" else .ok .null, ())) 0 () =
          some (.ok r) ∧
      ∀ q ∈ pair.moments {} (fun _ => "t") (fun s (_ : Unit) =>
          (if s.id = "a" then .failure "Sheet 'Orders' not found" else .ok .null, ())) 0 (),
        ∀ m ∈ q.mended, q.plan.dependencyState m.1 = .satisfied →
          ∀ s ∈ m.2.newSteps, q.plan.dependencyState s.id = .satisfied := by
  have htidy : (ofSteps "" "" pair.steps).Tidy (fun _ => "t") := tidy_pair _
  obtain ⟨r, hrun, -, hmoments, -⟩ := run_completes_repairs {} (fun _ => "t")
    (fun s (_ : Unit) =>
      (if s.id = "a" then .failure "Sheet 'Orders' not found" else .ok .null, ())) 0 () "" ""
    pair.steps htidy
  exact ⟨htidy, r, hrun, fun q hq => (hmoments q hq).2⟩

end Plan

end WorkbookPlan
