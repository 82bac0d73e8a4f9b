import WorkbookPlan.Proofs.Run.Moments

/-! A run edits its plan by single changes: a state is set, new steps are appended, or the phase is
settled. Each moment of a run comes out of those before it in this way. -/
namespace WorkbookPlan

open Step Relation

namespace Plan

inductive Edit (settings : Settings) (tokens : Nat → String) (p : Plan) : Plan → Prop where
  | start {s : Step} : s ∈ p.steps → s.status = .pending →
      Edit settings tokens p (p.markRunning s.id)
  | skip {s : Step} : s ∈ p.steps → s.status = .pending →
      Edit settings tokens p (p.markSkipped s.id)
  | complete {s : Step} : s ∈ p.steps → s.status = .running →
      Edit settings tokens p (p.markCompleted s.id)
  | fail {s : Step} : s ∈ p.steps → s.status = .running →
      Edit settings tokens p (p.markFailed s.id)
  | repair {s : Step} (error : String) (context : RepairContext) {r : Repair} :
      s.withStatus .failed ∈ p.steps → context.count = p.repairCount →
      p.repairCount < settings.maxRepairs →
      r = .ofStep settings (tokens (p.repairCount + 1)) s error context →
      Edit settings tokens p (p.extend s.id r.newSteps r.replacement)
  | settle (phase : Phase) : Edit settings tokens p { p with phase := phase }

abbrev Edits (settings : Settings) (tokens : Nat → String) : Plan → Plan → Prop :=
  ReflTransGen (Edit settings tokens)

inductive Reworks (settings : Settings) (tokens : Nat → String) (p q : Plan) : Prop where
  | mark {s : Step} {status : Status} : s ∈ p.steps → s.status.isTerminal = false →
      q.steps = markWhere status (·.id == s.id) p.steps → q.repairCount = p.repairCount →
      Reworks settings tokens p q
  | append {s : Step} {r : Repair} : s.withStatus .failed ∈ p.steps →
      r.patch.Fits ⟨p.repairCount + 1, tokens (p.repairCount + 1)⟩ s settings.splitParts →
      q.steps = p.steps ++ renumber (placeBehind p.lastOrder) r.newSteps →
      q.repairCount = p.repairCount + 1 → Reworks settings tokens p q
  | leave : q.steps = p.steps → q.repairCount = p.repairCount → Reworks settings tokens p q

variable {settings : Settings} {tokens : Nat → String} {p q : Plan}

theorem steps_markRunning (hp : p.ids.Nodup) {id : StepId} (h : id ∈ p.ids) :
    (p.markRunning id).steps = markWhere .running (·.id == id) p.steps := by
  rw [markRunning_eq h]
  exact setStatus_eq_markWhere hp

theorem steps_mark (hp : p.ids.Nodup) {id : StepId} (h : id ∈ p.ids) (status : Status)
    {note : Plan → Plan} (hnote : ∀ q, (note q).steps = q.steps) :
    (p.mark id status note).steps = markWhere status (·.id == id) p.steps := by
  rw [mark_of_mem h, hnote]
  exact setStatus_eq_markWhere hp

theorem steps_markSkipped (hp : p.ids.Nodup) (id : StepId) :
    (p.markSkipped id).steps = markWhere .skipped (·.id == id) p.steps :=
  setStatus_eq_markWhere hp

theorem Edit.reworks (h : Edit settings tokens p q) (hp : p.ids.Nodup) :
    Reworks settings tokens p q := by
  cases h with
  | start hs hstatus =>
    exact .mark hs (by rw [hstatus]; rfl) (steps_markRunning hp (id_mem_ids hs))
      (repairCount_markRunning p _)
  | skip hs hstatus => exact .mark hs (by rw [hstatus]; rfl) (steps_markSkipped hp _) rfl
  | complete hs hstatus =>
    exact .mark hs (by rw [hstatus]; rfl) (steps_mark hp (id_mem_ids hs) _ fun _ => rfl)
      (mark_eq_of_note Plan.repairCount rfl)
  | fail hs hstatus =>
    exact .mark hs (by rw [hstatus]; rfl) (steps_mark hp (id_mem_ids hs) _ fun _ => rfl)
      (mark_eq_of_note Plan.repairCount rfl)
  | @repair s error context r hs hcontext hcount hr =>
    have hfits := fits_of_count tokens s error hcontext hcount
    exact .append hs (hr ▸ hfits) rfl rfl
  | settle => exact .leave rfl rfl

theorem Reworks.tidy (h : Reworks settings tokens p q) (hp : p.Tidy tokens) : q.Tidy tokens := by
  cases h with
  | mark _ _ hsteps hcount => exact hp.of_ids_eq (by rw [ids, hsteps, map_id_markWhere, ids]) hcount
  | append _ hfits hsteps hcount =>
    refine hp.extended hfits ?_ hcount
    rw [ids, hsteps, List.map_append, map_id_renumber, ids]
  | leave hsteps hcount => exact hp.of_ids_eq (by rw [ids, hsteps, ids]) hcount

theorem Edits.tidy (h : Edits settings tokens p q) (hp : p.Tidy tokens) : q.Tidy tokens := by
  induction h with
  | refl => exact hp
  | tail _ hedit ih => exact (hedit.reworks ih.distinct).tidy ih

/-- The plans of some runs, on the way from one plan to another: each is edited out of those before
it. -/
structure Leads {σ : Type _} (settings : Settings) (tokens : Nat → String) (p : Plan)
    (rs : List (Run σ)) (q : Plan) : Prop where
  edits : Edits settings tokens p q
  between : ∀ r ∈ rs, Edits settings tokens p r.plan ∧ Edits settings tokens r.plan q
  pairwise : rs.Pairwise fun r r' => Edits settings tokens r.plan r'.plan

namespace Leads

variable {σ : Type _} {r : Run σ} {rs : List (Run σ)}

theorem nil (h : Edits settings tokens p q) : Leads settings tokens p ([] : List (Run σ)) q where
  edits := h
  between _ hx := nomatch hx
  pairwise := .nil

theorem head {m : Plan} (h : Edits settings tokens p m) (hrs : Leads settings tokens m rs q) :
    Leads settings tokens p rs q where
  edits := h.trans hrs.edits
  between x hx := ⟨h.trans (hrs.between x hx).1, (hrs.between x hx).2⟩
  pairwise := hrs.pairwise

theorem cons (h : Edits settings tokens p r.plan) (hrs : Leads settings tokens r.plan rs q) :
    Leads settings tokens p (r :: rs) q where
  edits := h.trans hrs.edits
  between x hx := by
    rcases List.mem_cons.1 hx with rfl | hx
    · exact ⟨h, hrs.edits⟩
    · exact ⟨h.trans (hrs.between x hx).1, (hrs.between x hx).2⟩
  pairwise := List.pairwise_cons.2 ⟨fun x hx => (hrs.between x hx).1, hrs.pairwise⟩

theorem singleton (h : Edits settings tokens p r.plan) : Leads settings tokens p [r] r.plan :=
  cons h (.nil .refl)

theorem append {m : Plan} {rs' : List (Run σ)} (h : Leads settings tokens p rs m)
    (h' : Leads settings tokens m rs' q) : Leads settings tokens p (rs ++ rs') q where
  edits := h.edits.trans h'.edits
  between x hx := by
    rcases List.mem_append.1 hx with hx | hx
    · exact ⟨(h.between x hx).1, (h.between x hx).2.trans h'.edits⟩
    · exact ⟨h.edits.trans (h'.between x hx).1, (h'.between x hx).2⟩
  pairwise := List.pairwise_append.2
    ⟨h.pairwise, h'.pairwise, fun x hx y hy => (h.between x hx).2.trans (h'.between y hy).1⟩

end Leads

end Plan

namespace Run

open Plan

variable {σ : Type _} {settings : Settings} {tokens : Nat → String} {execute : Executor σ}

theorem skips_cons (r : Run σ) (s : Step) (steps : List Step) :
    r.skips (s :: steps) = r :: (r.skip s).skips steps := by
  simp [skips, Function.comp_def]

theorem leads_skips (steps : List Step) (r : Run σ) (hr : r.plan.ids.Nodup)
    (hnodup : (steps.map (·.id)).Nodup)
    (hmem : ∀ s ∈ steps, s ∈ r.plan.steps ∧ s.status = .pending) :
    Leads settings tokens r.plan (r.skips steps) (steps.foldl skip r).plan := by
  induction steps generalizing r with
  | nil => exact .singleton .refl
  | cons s steps ih =>
    obtain ⟨hs, hstatus⟩ := hmem s List.mem_cons_self
    obtain ⟨hnew, hrest⟩ := List.nodup_cons.1 hnodup
    have hsteps : (r.skip s).plan.steps = markWhere .skipped (·.id == s.id) r.plan.steps :=
      steps_markSkipped hr s.id
    have hids : (r.skip s).plan.ids = r.plan.ids := by rw [ids, hsteps, map_id_markWhere, ids]
    rw [skips_cons]
    refine .cons .refl (.head (.single (.skip hs hstatus)) (ih (r.skip s) (hids ▸ hr) hrest ?_))
    intro t ht
    obtain ⟨hold, htstatus⟩ := hmem t (List.mem_cons_of_mem _ ht)
    have hne : t.id ≠ s.id := fun he => hnew (List.mem_map.2 ⟨t, ht, he⟩)
    rw [hsteps, mem_markWhere]
    exact ⟨⟨t, hold, .inr ⟨by simpa using hne, rfl⟩⟩, htstatus⟩

theorem leads_skips_filter (r : Run σ) (hr : r.plan.ids.Nodup) {which : Step → Bool}
    (hwhich : ∀ s ∈ r.plan.steps, which s = true → s.isPending = true) :
    Leads settings tokens r.plan (r.skips (r.plan.steps.filter which))
      ((r.plan.steps.filter which).foldl skip r).plan := by
  refine leads_skips _ r hr (hr.sublist (List.filter_sublist.map _)) fun s hs => ?_
  obtain ⟨hmem, hw⟩ := List.mem_filter.1 hs
  exact ⟨hmem, by simpa [isPending] using hwhich s hmem hw⟩

theorem leads_roundMoments (n : Nat) (r : Run σ) (hr : r.plan.ids.Nodup) :
    Leads settings tokens r.plan (r.roundMoments n) (skipRounds n r).plan := by
  induction n generalizing r with
  | zero => exact .singleton .refl
  | succ n ih =>
    have hround : Leads settings tokens r.plan (r.skips r.plan.doomed)
        (r.plan.doomed.foldl skip r).plan :=
      leads_skips_filter r hr fun s _ h => (Bool.and_eq_true_iff.1 h).1
    have hids : (r.plan.doomed.foldl skip r).plan.ids = r.plan.ids := ids_foldl_skip hr _
    unfold roundMoments skipRounds
    cases h : r.plan.doomed with
    | nil => exact .singleton .refl
    | cons s rest =>
      rw [h] at hround hids
      exact hround.append (ih _ (hids ▸ hr))

section Ready

variable {r : Run σ} {s : Step} (hs : r.plan.nextReady? = some s) (hr : r.plan.ids.Nodup)

include hs

theorem edit_start (settings : Settings) (tokens : Nat → String) :
    Edit settings tokens r.plan (r.plan.markRunning s.id) := by
  obtain ⟨hmem, hpending, -⟩ := nextReady?_eq_some hs
  exact .start hmem (by simpa [isPending] using hpending)

include hr

theorem mem_steps_started : s.withStatus .running ∈ (r.plan.markRunning s.id).steps := by
  have hmem := (nextReady?_eq_some hs).1
  rw [steps_markRunning hr (id_mem_ids hmem)]
  exact mem_markWhere.2 ⟨s, hmem, .inl ⟨by simp, rfl⟩⟩

theorem edit_complete (settings : Settings) (tokens : Nat → String) :
    Edit settings tokens (r.plan.markRunning s.id) (r.plan.complete s.id) :=
  .complete (s := s.withStatus .running) (mem_steps_started hs hr) rfl

theorem edit_fail (settings : Settings) (tokens : Nat → String) :
    Edit settings tokens (r.plan.markRunning s.id) (r.plan.fail s.id) :=
  .fail (s := s.withStatus .running) (mem_steps_started hs hr) rfl

theorem edit_repair {o : Outcome} (hcount : r.plan.repairCount < settings.maxRepairs) :
    Edit settings tokens (r.plan.fail s.id)
      ((r.plan.fail s.id).extend s.id (repairOf settings tokens r.plan s o).newSteps
        (repairOf settings tokens r.plan s o).replacement) := by
  have hsame : (r.plan.fail s.id).repairCount = r.plan.repairCount := repairCount_fail _ _
  have hmem : s.withStatus .failed ∈ (r.plan.fail s.id).steps := by
    rw [fail_eq_of_ready hs hr]
    exact mem_markWhere.2 ⟨s, (nextReady?_eq_some hs).1, .inl ⟨by simp, rfl⟩⟩
  refine .repair (o.error.getD "") (context (r.plan.fail s.id) o) hmem rfl (hsame ▸ hcount) ?_
  rw [hsame]
  rfl

theorem leads_actMoments_of_ready {o : Outcome} {k : σ} {r' : Run σ}
    (he : execute s r.kept = (o, k)) (ho : o.success = false)
    (hend : Edits settings tokens (r.plan.fail s.id) r'.plan) :
    Leads settings tokens r.plan (r.actMoments execute ++ [r']) r'.plan := by
  have hno : ¬ (o.success = true) := by simp [ho]
  simp only [actMoments, hs, he, if_neg hno, List.cons_append, List.nil_append]
  refine .cons (.single (edit_start hs _ _)) ?_
  refine .cons (.single (edit_fail hs hr _ _)) ?_
  exact .singleton hend

end Ready

/-- What a turn does behind its rounds of skipping, moment by moment. -/
theorem Acts.leads {r r' : Run σ} {t : Turn σ} (h : Acts settings tokens execute r t)
    (hr : r.plan.ids.Nodup) (hend : t.run? = some r') :
    Leads settings tokens r.plan (r.actMoments execute ++ [r']) r'.plan := by
  cases h with
  | @complete s o kept hs he ho =>
    cases hend
    simp only [actMoments, hs, he, ho, if_true, List.cons_append, List.nil_append]
    refine .cons (.single (edit_start hs _ _)) ?_
    exact .singleton (.single (edit_complete hs hr _ _))
  | @repair s o kept hs he ho hcount =>
    cases hend
    exact leads_actMoments_of_ready hs hr he ho
      (.tail (.single (edit_repair hs hr hcount)) (.settle .executing))
  | @abort s o kept hs he ho hcount =>
    cases hend
    exact leads_actMoments_of_ready hs hr he ho (.single (.settle .failed))
  | finish hs =>
    cases hend
    have hskips : Leads settings tokens r.plan (r.skips r.plan.pending)
        (r.plan.pending.foldl skip r).plan := leads_skips_filter r hr fun _ _ h => h
    simp only [actMoments, hs]
    exact hskips.append (.singleton (.single (.settle _)))

theorem leads_turnMoments {r r' : Run σ} (hr : r.plan.ids.Nodup)
    (h : (r.turn settings tokens execute).run? = some r') :
    Leads settings tokens r.plan (r.turnMoments settings tokens execute) r'.plan := by
  have hrounds : Leads settings tokens r.plan (r.roundMoments r.plan.pending.length)
      r.skipDoomed.plan := leads_roundMoments _ r hr
  have hacts := (turn_acts settings tokens execute r).leads (nodup_skipDoomed hr) h
  have hlast : r.turnMoments settings tokens execute =
      r.roundMoments r.plan.pending.length ++ (r.skipDoomed.actMoments execute ++ [r']) := by
    unfold turnMoments
    cases ht : r.turn settings tokens execute with
    | again q | ended q =>
      rw [ht] at h
      cases h
      rw [List.append_assoc]
    | lost =>
      rw [ht] at h
      cases h
  rw [hlast]
  exact hrounds.append hacts

theorem Unfolds.leads {n : Nat} {r r' : Run σ} (h : Unfolds settings tokens execute n r)
    (hr' : r.turns settings tokens execute n = some (.ok r')) :
    Leads settings tokens r.plan
      ((r.starts settings tokens execute n).flatMap (turnMoments settings tokens execute))
      r'.plan := by
  induction h with
  | zero => cases hr'
  | again htidy hagain _ ih =>
    rw [turns_of_again hagain] at hr'
    rw [starts_of_again hagain, List.flatMap_cons]
    exact (leads_turnMoments htidy.distinct (congrArg Turn.run? hagain)).append (ih hr')
  | ended htidy hended =>
    rw [turns_of_ended hended] at hr'
    cases hr'
    rw [starts_of_ended hended, List.flatMap_cons, List.flatMap_nil, List.append_nil]
    exact leads_turnMoments htidy.distinct (congrArg Turn.run? hended)

end Run

namespace Plan

variable {σ : Type _} {settings : Settings} {tokens : Nat → String} {p : Plan}

/-- A run comes to an end, and its moments lead there by edits from the plan that it was given. -/
theorem run_leads (settings : Settings) (execute : Executor σ) (spare : Nat) (kept : σ)
    (hp : p.refusal? = none) (ht : p.Tidy tokens) :
    ∃ r, p.run settings tokens execute spare kept = some (.ok r) ∧
      (p.moments settings tokens execute spare kept).getLast? = some r ∧
      Leads settings tokens p (p.moments settings tokens execute spare kept) r.plan := by
  obtain ⟨-, r, -, -, hrun⟩ := run_ends settings execute spare kept hp ht
  have hturns := hrun
  rw [run_eq_turns hp] at hturns
  have hleads := (Run.unfolds settings execute _ (tidy_opened ht)).leads hturns
  rw [moments, starts_eq hp]
  exact ⟨r, hrun, Run.getLast?_moments hturns, .head (.single (.settle .executing)) hleads⟩

end Plan

end WorkbookPlan
