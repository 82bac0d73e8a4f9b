import WorkbookPlan.Proofs.Plan.Grounded
import WorkbookPlan.Proofs.Run.Trace

/-! Order is kept by every move: what was run had its dependencies satisfied, what was skipped has a
dead one, and all that a repair appends is grounded as soon as the failed step is. -/
namespace WorkbookPlan.Plan

open Step Relation

/-- No name that a step bears or waits for is one that a repair to come may give. -/
structure Clear (tokens : Nat → String) (p : Plan) : Prop extends Tidy tokens p where
  unclaimed : ∀ s ∈ p.steps, ∀ d ∈ s.dependsOn, ¬ Minted tokens p.repairCount d

theorem clear_pair (tokens : Nat → String) : pair.Clear tokens where
  toTidy := tidy_pair tokens
  unclaimed s hs d hd hm := by
    have hfirst : ∀ s ∈ pair.steps, ∀ d ∈ s.dependsOn, d.toList.head? ≠ some 'r' := by decide
    exact hfirst s hs d hd hm.head?

variable {settings : Settings} {tokens : Nat → String} {p q : Plan} {status : Status}
  {which : Step → Bool} {new : List Step}

/-- A name that no repair to come may give keeps its state once it does not wait any more. -/
theorem Evolves.dependencyState_eq (he : Evolves tokens p q) (hp : p.Linked) (hq : q.Linked)
    {id : StepId} (hid : ¬ Minted tokens p.repairCount id) (h : p.dependencyState id ≠ .waiting) :
    q.dependencyState id = p.dependencyState id :=
  he.toGrows.dependencyState_eq hp hq (fun hmem => (he.ids id hmem).resolve_right hid) h

theorem Advances.clear (h : Advances p q status which new) (hp : p.Clear tokens)
    (hq : q.Tidy tokens) (hcount : p.repairCount ≤ q.repairCount)
    (hnew : ∀ s ∈ new, ∀ d ∈ s.dependsOn, ¬ Minted tokens q.repairCount d) : q.Clear tokens where
  toTidy := hq
  unclaimed t ht d hd := by
    rcases h.mem_steps.1 ht with ⟨s, hs, -, rfl⟩ | ⟨hold, -⟩ | hnew'
    · exact fun hm => hp.unclaimed s hs d hd (hm.mono hcount)
    · exact fun hm => hp.unclaimed t hold d hd (hm.mono hcount)
    · exact hnew t hnew' d hd

theorem Orderly.advances (hp : p.Orderly) (hc : p.Clear tokens) (he : Evolves tokens p q)
    (h : Advances p q status which new)
    (hmarked : ∀ s ∈ p.steps, which s = true → p.InOrder (s.withStatus status))
    (hfailed : ∀ id, id ∈ q.failed ↔
      id ∈ p.failed ∨ status = .failed ∧ ∃ s ∈ p.steps, s.id = id ∧ which s = true)
    (hgrounded : ∀ {id}, p.Grounded id → q.Grounded id) : q.Orderly := by
  have hlinked : q.Linked := h.linked_of_linked hp.toLinked
  have hkeeps : ∀ s ∈ p.steps, ∀ d ∈ s.dependsOn, p.dependencyState d ≠ .waiting →
      q.dependencyState d = p.dependencyState d := fun s hs d hd =>
    he.dependencyState_eq hp.toLinked hlinked (hc.unclaimed s hs d hd)
  refine { hlinked with inOrder := fun t ht => ?_, mem_failed := fun id => ?_ }
  · rcases h.mem_steps.1 ht with ⟨s, hs, hw, rfl⟩ | ⟨hold, -⟩ | hnew
    · exact (hmarked s hs hw).keep hgrounded (hkeeps s hs)
    · exact (hp.inOrder t hold).keep hgrounded (hkeeps t hold)
    · exact .pending (h.new_pending t hnew)
  · rw [hfailed, hp.mem_failed]
    constructor
    · rintro (⟨s, hs, hid, hstatus⟩ | ⟨rfl, s, hs, hid, hw⟩)
      · have hw : which s = false := by
          by_contra hw
          have hpending := h.pending s hs (by simpa using hw)
          simp [isPending, hstatus] at hpending
        exact ⟨s, h.mem_steps.2 (.inr (.inl ⟨hs, hw⟩)), hid, hstatus⟩
      · exact ⟨s.withStatus .failed, h.mem_steps.2 (.inl ⟨s, hs, hw, rfl⟩), hid, rfl⟩
    · rintro ⟨t, ht, hid, hstatus⟩
      rcases h.mem_steps.1 ht with ⟨s, hs, hw, rfl⟩ | ⟨hold, -⟩ | hnew
      · exact .inr ⟨hstatus, s, hs, hid, hw⟩
      · exact .inl ⟨t, hold, hid, hstatus⟩
      · simp [h.new_pending t hnew] at hstatus

/-- Where no steps are new there are no new stand-ins. -/
theorem Advances.grounded (h : Advances p q status which []) {id : StepId} (hid : p.Grounded id) :
    q.Grounded id :=
  hid.grows h.grows fun _ hnext => .inl ((h.linked hnext).resolve_right fun hnew => nomatch hnew.1)

section Repaired

variable {s : Step} (hs : p.nextReady? = some s)

include hs

theorem grounded_newSteps (hp : p.Linked) (ht : p.Tidy tokens) {parts : Nat} {r : Repair}
    (hfits : r.patch.Fits ⟨p.repairCount + 1, tokens (p.repairCount + 1)⟩ s parts)
    (hdeps : ∀ d ∈ s.dependsOn, (p.repaired s r).Grounded d) (i : Nat)
    {t : Step} (hi : r.newSteps[i]? = some t) : (p.repaired s r).Grounded t.id := by
  have hnodup := ht.nodup_append hfits
  have hadvances := advances_repaired hs ht.distinct hnodup
  -- among the new steps each waits for earlier ones only
  induction i using Nat.strongRecOn generalizing t with
  | ind i ih =>
    obtain ⟨u, hu, hid, hsame⟩ := exists_mem_renumber (placeBehind (p.fail s.id).lastOrder) hi
    have hmem : u ∈ (p.repaired s r).steps := hadvances.mem_steps.2 (.inr (.inr hu))
    refine .intro (hid ▸ step?_of_mem hadvances.distinct hmem) (fun d hd => ?_) fun next hnext => ?_
    · rcases hfits.dependsOn i t hi d (hsame ▸ hd) with hold | ⟨j, hj, rfl⟩
      · exact hdeps d hold
      · have hlt : j < r.newSteps.length := Nat.lt_trans hj (List.getElem?_eq_some_iff.1 hi).1
        have hstep := List.getElem?_eq_getElem hlt
        exact hfits.id_eq j _ hstep ▸ ih j hj hstep
    · -- Neither was there a step of that name before, nor is it the failed one.
      have hnew : t.id ∈ r.newSteps.map (·.id) :=
        List.mem_map_of_mem (List.mem_of_getElem? hi)
      have hold : t.id ∉ p.ids := fun hold => (List.nodup_append.1 hnodup).2.2 _ hold _ hnew rfl
      rcases get?_repaired_eq_some hs ht.distinct r hnext with hlink | ⟨he, -⟩
      · obtain ⟨v, hv, -⟩ := hp.failed hlink
        exact absurd (step?_eq_none_iff.2 hold) (by simp [hv])
      · exact absurd (he ▸ id_mem_ids (nextReady?_eq_some hs).1) hold

/-- The failed step has been grounded before, so its stand-in is. -/
theorem grounded_repaired (hp : p.Linked) (ht : p.Tidy tokens) {parts : Nat} {r : Repair}
    (hfits : r.patch.Fits ⟨p.repairCount + 1, tokens (p.repairCount + 1)⟩ s parts) {id : StepId}
    (hid : p.Grounded id) : (p.repaired s r).Grounded id := by
  refine hid.grows (ht.advances_of_fits hs hfits).grows ?_
  intro a t next hfind hnext
  rcases get?_repaired_eq_some hs ht.distinct r hnext with hold | ⟨rfl, -, hnew⟩
  · exact .inl hold
  · obtain rfl : s = t := by
      rw [step?_of_mem ht.distinct (nextReady?_eq_some hs).1] at hfind
      exact Option.some.inj hfind
    obtain ⟨u, hu, rfl⟩ := List.mem_map.1 hnew
    obtain ⟨i, hi⟩ := List.mem_iff_getElem?.1 hu
    exact .inr fun hdeps => grounded_newSteps hs hp ht hfits hdeps i hi

end Repaired

theorem Move.clear (h : Move settings tokens p q) (hp : p.Clear tokens) : q.Clear tokens := by
  have hq := h.tidy hp.toTidy
  cases h with
  | skip => exact (advances_skipRound hp.distinct).clear hp hq (Nat.le_refl _) fun _ h => nomatch h
  | complete _ hs =>
    exact (advances_complete hs hp.distinct).clear hp hq
      (Nat.le_of_eq (repairCount_complete hs hp.distinct).symm) fun _ h => nomatch h
  | @repair s error _ _ hs hcontext hcount =>
    have hfits := fits_of_count tokens s error hcontext hcount
    have hadvances := hp.advances_of_fits hs hfits
    refine hadvances.clear hp hq (by simp) fun t ht d hd => ?_
    rw [repairCount_repaired]
    obtain ⟨i, u, hu, -, hsame⟩ := exists_of_mem_renumber ht
    rcases hfits.dependsOn i u hu d (hsame ▸ hd) with hold | ⟨j, -, rfl⟩
    · exact fun hm => hp.unclaimed s (nextReady?_eq_some hs).1 d hold (hm.mono (Nat.le_succ _))
    · exact not_minted_id tokens ⟨p.repairCount + 1, _⟩ _

theorem Close.clear (h : Close settings p q) (hp : p.Clear tokens) : q.Clear tokens := by
  obtain ⟨status, which, hadvances⟩ := h.advances hp.distinct
  have hcount := h.repairCount_eq
  exact hadvances.clear hp (hadvances.tidy hcount hp.toTidy) (Nat.le_of_eq hcount.symm)
    fun _ h => nomatch h

theorem Move.orderly (h : Move settings tokens p q) (hp : p.Orderly) (hc : p.Clear tokens) :
    q.Orderly := by
  have he := h.evolves hc.toTidy
  cases h with
  | skip =>
    have hadvances := advances_skipRound hc.distinct
    refine hp.advances hc he hadvances (fun s _ hw => ?_) (fun id => ?_) hadvances.grounded
    · exact inOrder_of_doomed (Bool.and_eq_true_iff.1 hw).2
    · simp [skipRound, skipWhere]
  | @complete s _ hs =>
    have hadvances := advances_complete hs hc.distinct
    obtain ⟨hmem, hpending, hready⟩ := nextReady?_eq_some hs
    refine hp.advances hc he hadvances (fun t ht hw => ?_) (fun id => ?_) hadvances.grounded
    · obtain rfl := eq_of_id_eq hc.distinct ht hmem (by simpa using hw)
      exact hp.inOrder_of_ready hc.distinct hmem hpending hready (.inl rfl)
    · simp [complete_eq_of_ready hs hc.distinct]
  | @repair s error _ _ hs hcontext hcount =>
    have hfits := fits_of_count tokens s error hcontext hcount
    have hadvances := hc.advances_of_fits hs hfits
    obtain ⟨hmem, hpending, hready⟩ := nextReady?_eq_some hs
    refine hp.advances hc he hadvances (fun t ht hw => ?_) (fun id => ?_)
      (grounded_repaired hs hp.toLinked hc.toTidy hfits)
    · obtain rfl := eq_of_id_eq hc.distinct ht hmem (by simpa using hw)
      exact hp.inOrder_of_ready hc.distinct hmem hpending hready (.inr rfl)
    · simp only [repaired, extend, fail_eq_of_ready hs hc.distinct, mem_insertOnce, true_and]
      refine or_congr_right ⟨?_, ?_⟩
      · rintro rfl
        exact ⟨s, hmem, rfl, by simp⟩
      · rintro ⟨t, -, rfl, ht⟩
        simpa using ht

/-- Every new step is grounded. -/
theorem Move.grounded_new (h : Move settings tokens p q) (hp : p.Orderly) (hc : p.Clear tokens)
    {id : StepId} (hid : id ∈ q.ids) : id ∈ p.ids ∨ q.Grounded id := by
  cases h with
  | skip => exact .inl (by simpa [(advances_skipRound hc.distinct).ids_eq] using hid)
  | complete _ hs => exact .inl (by simpa [(advances_complete hs hc.distinct).ids_eq] using hid)
  | @repair s error _ _ hs hcontext hcount =>
    have hfits := fits_of_count tokens s error hcontext hcount
    rw [ids_repaired hs hc.distinct] at hid
    refine (List.mem_append.1 hid).imp_right fun hnew => ?_
    obtain ⟨u, hu, rfl⟩ := List.mem_map.1 hnew
    obtain ⟨i, hi⟩ := List.mem_iff_getElem?.1 hu
    have hready := isReady_iff.1 (nextReady?_eq_some hs).2.2
    refine grounded_newSteps hs hp.toLinked hc.toTidy hfits (fun d hd => ?_) i hi
    exact grounded_repaired hs hp.toLinked hc.toTidy hfits (hp.grounded_of_satisfied (hready d hd))

theorem Move.grounded (h : Move settings tokens p q) (hp : p.Linked) (ht : p.Tidy tokens)
    {id : StepId} (hid : p.Grounded id) : q.Grounded id := by
  cases h with
  | skip => exact (advances_skipRound ht.distinct).grounded hid
  | complete _ hs => exact (advances_complete hs ht.distinct).grounded hid
  | @repair s error _ _ hs hcontext hcount =>
    exact grounded_repaired hs hp ht (fits_of_count tokens s error hcontext hcount) hid

theorem Reaches.clear (h : Reaches settings tokens p q) (hp : p.Clear tokens) :
    q.Clear tokens := by
  induction h with
  | refl => exact hp
  | tail _ hmove ih => exact hmove.clear ih

theorem Reaches.orderly (h : Reaches settings tokens p q) (hp : p.Orderly) (hc : p.Clear tokens) :
    q.Orderly := by
  induction h with
  | refl => exact hp
  | tail hreach hmove ih => exact hmove.orderly ih (Reaches.clear hreach hc)

theorem Reaches.grounded (h : Reaches settings tokens p q) (hp : p.Linked) (ht : p.Tidy tokens)
    {id : StepId} (hid : p.Grounded id) : q.Grounded id := by
  induction h with
  | refl => exact hid
  | tail hreach hmove ih =>
    exact hmove.grounded (Reaches.linked hreach ht hp) (Reaches.tidy hreach ht) ih

theorem Reaches.grounded_new (h : Reaches settings tokens p q) (hp : p.Orderly)
    (hc : p.Clear tokens) {id : StepId} (hid : id ∈ q.ids) : id ∈ p.ids ∨ q.Grounded id := by
  induction h with
  | refl => exact .inl hid
  | tail hreach hmove ih =>
    have horderly := Reaches.orderly hreach hp hc
    have hclear := Reaches.clear hreach hc
    rcases hmove.grounded_new horderly hclear hid with hold | hnew
    · exact (ih hold).imp_right (hmove.grounded horderly.toLinked hclear.toTidy)
    · exact .inr hnew

/-- No name of the beginning becomes grounded later. -/
theorem Evolves.grounded_of_grounded (he : Evolves tokens p q) (hc : p.Clear tokens)
    (hlink : ∀ a, p.supersessions.get? a = none) {id : StepId} (h : q.Grounded id)
    (hid : id ∈ p.ids) : p.Grounded id := by
  induction h with
  | @intro id t ht hgrounded _ ihdeps _ =>
    obtain ⟨s, hs, rfl⟩ := mem_ids.1 hid
    have hfind := step?_of_mem hc.distinct hs
    obtain ⟨u, hu, hdeps, -⟩ := he.step hfind
    obtain rfl : t = u := Option.some.inj (ht.symm.trans hu)
    refine .intro hfind (fun d hd => ?_) fun next hnext => by simp [hlink] at hnext
    have hdt : d ∈ t.dependsOn := hdeps ▸ hd
    have hnew := hc.unclaimed s hs d hd
    exact ihdeps d hdt ((he.ids d (hgrounded d hdt).mem_ids).resolve_right hnew)

/-- A plan in which nothing has happened is in order. -/
theorem orderly_of_pending (hlink : ∀ a, p.supersessions.get? a = none) (hfailed : p.failed = [])
    (hpending : ∀ s ∈ p.steps, s.status = .pending) : p.Orderly where
  toLinked := linked_of_no_stand_ins hlink
  inOrder s hs := .pending (hpending s hs)
  mem_failed id := by
    rw [hfailed]
    constructor
    · exact fun h => nomatch h
    · rintro ⟨s, hs, -, hstatus⟩
      simp [hpending s hs] at hstatus

section Opened

variable {σ : Type _} {kept : σ}

theorem clear_opened (hp : p.Clear tokens) : (p.opened kept).plan.Clear tokens where
  toTidy := tidy_opened hp.toTidy
  unclaimed := hp.unclaimed

theorem grounded_opened_iff {id : StepId} : (p.opened kept).plan.Grounded id ↔ p.Grounded id := by
  have hsteps : (p.opened kept).plan.steps = p.steps := rfl
  have hlinks : (p.opened kept).plan.supersessions = p.supersessions := rfl
  exact ⟨.congr hsteps.symm hlinks.symm, .congr hsteps hlinks⟩

theorem orderly_opened (task taskKind : String) {steps : List Step}
    (hpending : ∀ s ∈ steps, s.status = .pending) :
    ((ofSteps task taskKind steps).opened kept).plan.Orderly :=
  orderly_of_pending (fun _ => rfl) rfl hpending

end Opened

end WorkbookPlan.Plan
