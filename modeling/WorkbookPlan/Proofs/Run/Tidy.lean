import WorkbookPlan.Proofs.Plan.Chain
import WorkbookPlan.Proofs.Run.Move

/-! Plans whose names are all different and stay so, since no later repair gives one of them. Every
move and every end of a run only advances such a plan. -/
namespace WorkbookPlan.Plan

open Step Relation

/-- No name occurs twice, and none is one that a repair to come may give. -/
structure Tidy (tokens : Nat → String) (p : Plan) : Prop where
  distinct : p.ids.Nodup
  fresh : ∀ id ∈ p.ids, ¬ Minted tokens p.repairCount id

variable {settings : Settings} {tokens : Nat → String} {p q : Plan}

theorem Tidy.of_ids_eq (hp : p.Tidy tokens) (hids : q.ids = p.ids)
    (hcount : q.repairCount = p.repairCount) : q.Tidy tokens where
  distinct := hids ▸ hp.distinct
  fresh := by
    rw [hids, hcount]
    exact hp.fresh

/-- Two steps, the second of which waits for the first. -/
def pair : Plan :=
  .ofSteps "" ""
    [{ id := "a", order := 1, stage := .writeData, action := "write" },
      { id := "b", order := 2, stage := .writeData, action := "write", dependsOn := ["a"] }]

theorem tidy_pair (tokens : Nat → String) : pair.Tidy tokens where
  distinct := by decide
  fresh id hid hm := by
    have hfirst : ∀ id ∈ pair.ids, id.toList.head? ≠ some 'r' := by decide
    exact hfirst id hid hm.head?

/-- These steps fail, and all others succeed. -/
def failing (ids : List StepId) : Executor Unit := fun s _ =>
  (if s.id ∈ ids then .failure "" else .ok .null, ())

/-- The state of one step that is pending is marked. -/
theorem advances_of_mark {s : Step} {status : Status} (hp : p.ids.Nodup)
    (hs : p.nextReady? = some s) (hstatus : status ≠ .pending)
    (hsteps : q.steps = markWhere status (·.id == s.id) p.steps)
    (hlinks : q.supersessions = p.supersessions) :
    Advances p q status (·.id == s.id) [] where
  steps := by rw [hsteps, List.append_nil]
  distinct := by rwa [ids, hsteps, map_id_markWhere]
  status_ne := hstatus
  pending t ht he := by
    obtain ⟨hmem, hpending, -⟩ := nextReady?_eq_some hs
    rwa [eq_of_id_eq hp ht hmem (by simpa using he)]
  new_pending _ h := nomatch h
  link _ _ _ := by rw [hlinks]
  linked h := .inl (by rwa [← hlinks])

theorem advances_of_skip {which : Step → Bool} (hp : p.ids.Nodup)
    (hwhich : ∀ s ∈ p.steps, which s = true → s.isPending = true)
    (hsteps : q.steps = markWhere .skipped which p.steps)
    (hlinks : q.supersessions = p.supersessions) : Advances p q .skipped which [] where
  steps := by rw [hsteps, List.append_nil]
  distinct := by rwa [ids, hsteps, map_id_markWhere]
  status_ne := by decide
  pending := hwhich
  new_pending _ h := nomatch h
  link _ _ _ := by rw [hlinks]
  linked h := .inl (by rwa [← hlinks])

theorem advances_skipRound (hp : p.ids.Nodup) :
    Advances p p.skipRound .skipped (fun s => s.isPending && p.isDoomed s) [] :=
  advances_of_skip hp (fun _ _ h => (Bool.and_eq_true_iff.1 h).1) rfl rfl

theorem advances_finished (hp : p.ids.Nodup) :
    Advances p p.finished .skipped (·.isPending) [] :=
  advances_of_skip hp (fun _ _ h => h) rfl rfl

section Ready

variable {s : Step} (hs : p.nextReady? = some s)

include hs

theorem complete_eq_of_ready (hp : p.ids.Nodup) : p.complete s.id =
    { p with
      steps := markWhere .completed (·.id == s.id) p.steps
      current := (p.index? s.id).getD 0
      phase := .executing
      completed := insertOnce p.completed s.id } :=
  mark_markRunning hp (id_mem_ids (nextReady?_eq_some hs).1) .completed fun q =>
    { q with completed := insertOnce q.completed s.id }

theorem fail_eq_of_ready (hp : p.ids.Nodup) : p.fail s.id =
    { p with
      steps := markWhere .failed (·.id == s.id) p.steps
      current := (p.index? s.id).getD 0
      phase := .executing
      failed := insertOnce p.failed s.id } :=
  mark_markRunning hp (id_mem_ids (nextReady?_eq_some hs).1) .failed fun q =>
    { q with failed := insertOnce q.failed s.id }

theorem advances_complete (hp : p.ids.Nodup) :
    Advances p (p.complete s.id) .completed (·.id == s.id) [] := by
  have heq := complete_eq_of_ready hs hp
  exact advances_of_mark hp hs (by decide) (by rw [heq]) (by rw [heq])

theorem advances_aborted (hp : p.ids.Nodup) :
    Advances p (p.aborted s) .failed (·.id == s.id) [] := by
  have heq := fail_eq_of_ready hs hp
  exact advances_of_mark hp hs (by decide) (by rw [aborted, heq]) (by rw [aborted, heq])

theorem steps_repaired (hp : p.ids.Nodup) (r : Repair) : (p.repaired s r).steps =
    markWhere .failed (·.id == s.id) p.steps ++
      renumber (placeBehind (p.fail s.id).lastOrder) r.newSteps := by
  have heq := fail_eq_of_ready hs hp
  simp only [repaired, extend, heq]

theorem ids_repaired (hp : p.ids.Nodup) (r : Repair) :
    (p.repaired s r).ids = p.ids ++ r.newSteps.map (·.id) := by
  rw [ids, steps_repaired hs hp, List.map_append, map_id_markWhere, map_id_renumber, ids]

theorem get?_repaired_of_ne (hp : p.ids.Nodup) (r : Repair) {a : StepId} (ha : a ≠ s.id) :
    (p.repaired s r).supersessions.get? a = p.supersessions.get? a := by
  have heq := fail_eq_of_ready hs hp
  simp only [repaired, extend, heq]
  split
  · rfl
  · exact KeyedMap.get?_insert_of_ne ha ..

theorem get?_repaired_eq_some (hp : p.ids.Nodup) (r : Repair) {a b : StepId}
    (h : (p.repaired s r).supersessions.get? a = some b) :
    p.supersessions.get? a = some b ∨
      a = s.id ∧ r.replacement = some b ∧ b ∈ r.newSteps.map (·.id) := by
  by_cases ha : a = s.id
  · subst ha
    have heq := fail_eq_of_ready hs hp
    simp only [repaired, extend, heq] at h
    split at h
    · exact .inl h
    · next c hc =>
      obtain ⟨hr, hmem⟩ := Option.filter_eq_some_iff.1 hc
      obtain rfl : c = b := by simpa using h
      exact .inr ⟨rfl, hr, by simpa using hmem⟩
  · exact .inl (by rwa [get?_repaired_of_ne hs hp r ha] at h)

theorem advances_repaired (hp : p.ids.Nodup) {r : Repair}
    (hnew : (p.ids ++ r.newSteps.map (·.id)).Nodup) :
    Advances p (p.repaired s r) .failed (·.id == s.id)
      (renumber (placeBehind (p.fail s.id).lastOrder) r.newSteps) where
  steps := steps_repaired hs hp r
  distinct := by rwa [ids_repaired hs hp]
  status_ne := by decide
  pending t ht he := by
    obtain ⟨hmem, hpending, -⟩ := nextReady?_eq_some hs
    rwa [eq_of_id_eq hp ht hmem (by simpa using he)]
  new_pending _ h := by
    obtain ⟨_, _, _, hpending, _⟩ := exists_of_mem_renumber h
    exact hpending
  link t ht hpending := by
    refine get?_repaired_of_ne hs hp r fun he => ?_
    obtain ⟨hmem, hs', -⟩ := nextReady?_eq_some hs
    rw [eq_of_id_eq hp ht hmem he, hs'] at hpending
    cases hpending
  linked h := by
    rcases get?_repaired_eq_some hs hp r h with hold | ⟨rfl, -, hb⟩
    · exact .inl hold
    · exact .inr ⟨by rwa [map_id_renumber], s, (nextReady?_eq_some hs).1, rfl, by simp, rfl⟩

end Ready

theorem Tidy.nodup_append (hp : p.Tidy tokens) {s : Step} {parts : Nat} {r : Repair}
    (hr : r.patch.Fits ⟨p.repairCount + 1, tokens (p.repairCount + 1)⟩ s parts) :
    (p.ids ++ r.newSteps.map (·.id)).Nodup := by
  refine List.nodup_append.2 ⟨hp.distinct, hr.nodup_ids, fun a ha b hb he => ?_⟩
  obtain ⟨i, -, rfl⟩ := hr.mem_ids.1 hb
  exact hp.fresh a ha (he ▸ minted_id (Nat.lt_succ_self _) _)

theorem Tidy.advances_of_fits (hp : p.Tidy tokens) {s : Step} (hs : p.nextReady? = some s)
    {parts : Nat} {r : Repair}
    (hr : r.patch.Fits ⟨p.repairCount + 1, tokens (p.repairCount + 1)⟩ s parts) :
    Advances p (p.repaired s r) .failed (·.id == s.id)
      (renumber (placeBehind (p.fail s.id).lastOrder) r.newSteps) :=
  advances_repaired hs hp.distinct (hp.nodup_append hr)

/-- The names of new steps are those of the repair to come. -/
theorem minted_of_mem_newSteps {s : Step} {parts count : Nat} {r : Repair} {id : StepId}
    (hr : r.patch.Fits ⟨count + 1, tokens (count + 1)⟩ s parts)
    (hid : id ∈ r.newSteps.map (·.id)) :
    Minted tokens count id ∧ ¬ Minted tokens (count + 1) id := by
  obtain ⟨i, -, rfl⟩ := hr.mem_ids.1 hid
  exact ⟨minted_id (Nat.lt_succ_self _) _, not_minted_id tokens ⟨count + 1, _⟩ _⟩

theorem Tidy.extended (hp : p.Tidy tokens) {s : Step} {parts : Nat} {r : Repair}
    (hr : r.patch.Fits ⟨p.repairCount + 1, tokens (p.repairCount + 1)⟩ s parts)
    (hids : q.ids = p.ids ++ r.newSteps.map (·.id)) (hcount : q.repairCount = p.repairCount + 1) :
    q.Tidy tokens where
  distinct := hids ▸ hp.nodup_append hr
  fresh id hid := by
    rw [hcount]
    rw [hids] at hid
    rcases List.mem_append.1 hid with hold | hnew
    · exact fun hm => hp.fresh id hold (hm.mono (Nat.le_succ _))
    · exact (minted_of_mem_newSteps hr hnew).2

/-- How a plan may change in the course of a run. -/
structure Evolves (tokens : Nat → String) (p q : Plan) : Prop extends Grows p q where
  ids : ∀ id ∈ q.ids, id ∈ p.ids ∨ Minted tokens p.repairCount id
  count : p.repairCount ≤ q.repairCount

theorem Evolves.refl (p : Plan) : Evolves tokens p p where
  toGrows := .refl p
  ids _ h := .inl h
  count := Nat.le_refl _

theorem Evolves.trans {r : Plan} (hpq : Evolves tokens p q) (hqr : Evolves tokens q r) :
    Evolves tokens p r where
  toGrows := hpq.toGrows.trans hqr.toGrows
  ids id hid := by
    rcases hqr.ids id hid with hold | hnew
    · exact hpq.ids id hold
    · exact .inr (hnew.mono hpq.count)
  count := Nat.le_trans hpq.count hqr.count

theorem Advances.evolves {status : Status} {which : Step → Bool}
    (h : Advances p q status which []) (hcount : q.repairCount = p.repairCount) :
    Evolves tokens p q where
  toGrows := h.grows
  ids id hid := .inl (by simpa [h.ids_eq] using hid)
  count := Nat.le_of_eq hcount.symm

theorem Advances.tidy {status : Status} {which : Step → Bool}
    (h : Advances p q status which []) (hcount : q.repairCount = p.repairCount)
    (hp : p.Tidy tokens) : q.Tidy tokens :=
  hp.of_ids_eq (by simp [h.ids_eq]) hcount

theorem repairCount_complete {s : Step} (hs : p.nextReady? = some s) (hp : p.ids.Nodup) :
    (p.complete s.id).repairCount = p.repairCount := by
  rw [complete_eq_of_ready hs hp]

@[simp] theorem repairCount_repaired (s : Step) (r : Repair) :
    (p.repaired s r).repairCount = p.repairCount + 1 := by
  simp [repaired, extend]

@[simp] theorem repairCount_aborted (s : Step) : (p.aborted s).repairCount = p.repairCount := by
  simp [aborted]

theorem fits_of_count (tokens : Nat → String) (s : Step) (error : String) {context : RepairContext}
    (hcontext : context.count = p.repairCount) (hcount : p.repairCount < settings.maxRepairs) :
    (Repair.ofStep settings (tokens (p.repairCount + 1)) s error context).patch.Fits
      ⟨p.repairCount + 1, tokens (p.repairCount + 1)⟩ s settings.splitParts :=
  hcontext ▸ Repair.fits_ofStep (hcontext ▸ hcount)

theorem Move.advances (h : Move settings tokens p q) (hp : p.Tidy tokens) :
    ∃ status which new, Advances p q status which new := by
  cases h with
  | skip => exact ⟨_, _, _, advances_skipRound hp.distinct⟩
  | complete _ hs => exact ⟨_, _, _, advances_complete hs hp.distinct⟩
  | @repair s error _ _ hs hcontext hcount =>
    exact ⟨_, _, _, hp.advances_of_fits hs (fits_of_count tokens s error hcontext hcount)⟩

theorem Move.tidy (h : Move settings tokens p q) (hp : p.Tidy tokens) : q.Tidy tokens := by
  cases h with
  | skip => exact (advances_skipRound hp.distinct).tidy rfl hp
  | complete _ hs =>
    exact (advances_complete hs hp.distinct).tidy (repairCount_complete hs hp.distinct) hp
  | @repair s error _ _ hs hcontext hcount =>
    have hfits := fits_of_count tokens s error hcontext hcount
    exact hp.extended hfits (ids_repaired hs hp.distinct _) (repairCount_repaired s _)

theorem Move.evolves (h : Move settings tokens p q) (hp : p.Tidy tokens) :
    Evolves tokens p q := by
  cases h with
  | skip => exact (advances_skipRound hp.distinct).evolves rfl
  | complete _ hs =>
    exact (advances_complete hs hp.distinct).evolves (repairCount_complete hs hp.distinct)
  | @repair s error _ _ hs hcontext hcount =>
    have hfits := fits_of_count tokens s error hcontext hcount
    refine ⟨(hp.advances_of_fits hs hfits).grows, fun id hid => ?_, ?_⟩
    · rw [ids_repaired hs hp.distinct] at hid
      exact (List.mem_append.1 hid).imp_right fun hnew => (minted_of_mem_newSteps hfits hnew).1
    · rw [repairCount_repaired]
      exact Nat.le_succ _

theorem Close.advances (h : Close settings p q) (hp : p.ids.Nodup) :
    ∃ status which, Advances p q status which [] := by
  cases h with
  | finish => exact ⟨_, _, advances_finished hp⟩
  | abort _ hs => exact ⟨_, _, advances_aborted hs hp⟩

theorem Close.repairCount_eq (h : Close settings p q) : q.repairCount = p.repairCount := by
  cases h with
  | finish => rfl
  | abort => exact repairCount_aborted _

theorem Close.evolves (h : Close settings p q) (hp : p.ids.Nodup) : Evolves tokens p q := by
  obtain ⟨status, which, hadvances⟩ := h.advances hp
  exact hadvances.evolves h.repairCount_eq

theorem Reaches.tidy (h : Reaches settings tokens p q) (hp : p.Tidy tokens) : q.Tidy tokens := by
  induction h with
  | refl => exact hp
  | tail _ hmove ih => exact hmove.tidy ih

theorem Reaches.evolves (h : Reaches settings tokens p q) (hp : p.Tidy tokens) :
    Evolves tokens p q := by
  induction h with
  | refl => exact .refl p
  | tail hreach hmove ih => exact ih.trans (hmove.evolves (Reaches.tidy hreach hp))

theorem Reaches.linked (h : Reaches settings tokens p q) (hp : p.Tidy tokens) (hl : p.Linked) :
    q.Linked := by
  induction h with
  | refl => exact hl
  | tail hreach hmove ih =>
    obtain ⟨status, which, new, hadvances⟩ := hmove.advances (Reaches.tidy hreach hp)
    exact hadvances.linked_of_linked ih

theorem Close.linked (h : Close settings p q) (hp : p.ids.Nodup) (hl : p.Linked) : q.Linked := by
  obtain ⟨status, which, hadvances⟩ := h.advances hp
  exact hadvances.linked_of_linked hl

end WorkbookPlan.Plan
