import WorkbookPlan.Proofs.Plan.Chain

/-! Plans that are changed in any order. Whatever is marked or appended, a stand-in is a step behind
the one that it stands in for. So a walk from stand-in to stand-in comes to its end, and the bound on
the number of its rounds never cuts it short. -/
namespace WorkbookPlan.Plan

inductive Change where
  | start (id : StepId)
  | complete (id : StepId)
  | fail (id : StepId)
  | skip (id : StepId)
  | extend (failed : StepId) (new : List Step) (replacement : Option StepId)

namespace Change

def apply (p : Plan) : Change → Plan
  | start id => p.markRunning id
  | complete id => p.markCompleted id
  | fail id => p.markFailed id
  | skip id => p.markSkipped id
  | extend failed new replacement => p.extend failed new replacement

/-- Any name may be marked. Steps are appended for a step of the plan, under names that are new. -/
def Allowed (p : Plan) : Change → Prop
  | extend failed new _ =>
    failed ∈ p.ids ∧ (new.map (·.id)).Nodup ∧ ∀ s ∈ new, s.id ∉ p.ids
  | _ => True

end Change

/-- What becomes of a plan by a number of changes. -/
inductive Changed (start : Plan) : Plan → Prop where
  | refl : Changed start start
  | change {p : Plan} {c : Change} : Changed start p → c.Allowed p → Changed start (c.apply p)

/-- Names differ, and a stand-in is a step further behind. -/
structure Ascending (p : Plan) : Prop where
  distinct : p.ids.Nodup
  behind : ∀ {a b}, p.supersessions.get? a = some b → b ∈ p.ids ∧ p.ids.idxOf a < p.ids.idxOf b

/-- The step of the first name is lost, and the second name stands in for it. -/
def PassesOn (p : Plan) (a b : StepId) : Prop :=
  (∃ s, p.step? a = some s ∧ (s.status = .failed ∨ s.status = .skipped)) ∧
    p.supersessions.get? a = some b

/-- The names on the way from a name to the first that is not passed on. -/
inductive Trail (p : Plan) : StepId → List StepId → Prop where
  | last {id} : (∀ next, ¬ p.PassesOn id next) → Trail p id [id]
  | next {id next rest} : p.PassesOn id next → Trail p next rest → Trail p id (id :: rest)

variable {p q : Plan} {a b failed : StepId} {new : List Step} {replacement : Option StepId}

section Marks

theorem ids_markSkipped (p : Plan) (id : StepId) : (p.markSkipped id).ids = p.ids :=
  map_id_setStatus ..

theorem supersessions_markRunning (p : Plan) (id : StepId) :
    (p.markRunning id).supersessions = p.supersessions := by
  unfold markRunning
  split <;> rfl

end Marks

theorem ids_extend : (p.extend failed new replacement).ids = p.ids ++ new.map (·.id) := by
  rw [ids, extend, List.map_append, map_id_renumber, ids]

/-- Only one of the new steps becomes a stand-in, and only for the failed step. -/
theorem get?_extend_eq_some (h : (p.extend failed new replacement).supersessions.get? a = some b) :
    p.supersessions.get? a = some b ∨ a = failed ∧ b ∈ new.map (·.id) := by
  unfold extend at h
  dsimp only at h
  split at h
  · exact .inl h
  · next r hr =>
    obtain ⟨-, hmem⟩ := Option.filter_eq_some_iff.1 hr
    by_cases ha : a = failed
    · subst ha
      rw [KeyedMap.get?_insert_self] at h
      obtain rfl : r = b := Option.some.inj h
      exact .inr ⟨rfl, List.contains_iff_mem.1 hmem⟩
    · rw [KeyedMap.get?_insert_of_ne ha] at h
      exact .inl h

namespace Ascending

theorem of_marked (hp : p.Ascending) (hids : q.ids = p.ids)
    (hlinks : q.supersessions = p.supersessions) : q.Ascending where
  distinct := hids ▸ hp.distinct
  behind hab := by
    rw [hlinks] at hab
    rw [hids]
    exact hp.behind hab

/-- The new steps stand behind all others, so the new stand-in does. -/
theorem extend (hp : p.Ascending) (hfailed : failed ∈ p.ids) (hnew : (new.map (·.id)).Nodup)
    (hfresh : ∀ s ∈ new, s.id ∉ p.ids) : (p.extend failed new replacement).Ascending where
  distinct := by
    rw [ids_extend]
    refine List.nodup_append.2 ⟨hp.distinct, hnew, fun x hx y hy hxy => ?_⟩
    obtain ⟨s, hs, rfl⟩ := List.mem_map.1 hy
    exact hfresh s hs (hxy ▸ hx)
  behind {a b} hab := by
    rw [ids_extend]
    rcases get?_extend_eq_some hab with hold | ⟨rfl, hb⟩
    · obtain ⟨hb, hlt⟩ := hp.behind hold
      have ha : a ∈ p.ids := List.idxOf_lt_length_iff.1 (Nat.lt_trans hlt (List.idxOf_lt_length_of_mem hb))
      refine ⟨List.mem_append_left _ hb, ?_⟩
      rwa [List.idxOf_append_of_mem ha, List.idxOf_append_of_mem hb]
    · have hnot : b ∉ p.ids := by
        obtain ⟨s, hs, rfl⟩ := List.mem_map.1 hb
        exact hfresh s hs
      have hlt := List.idxOf_lt_length_of_mem hfailed
      refine ⟨List.mem_append_right _ hb, ?_⟩
      rw [List.idxOf_append_of_mem hfailed, List.idxOf_append_of_notMem hnot]
      omega

theorem change (hp : p.Ascending) {c : Change} (hc : c.Allowed p) : (c.apply p).Ascending := by
  cases c with
  | start id => exact hp.of_marked (ids_markRunning p id) (supersessions_markRunning p id)
  | complete id | fail id =>
    refine hp.of_marked (mark_eq_of_note ids ?_) (mark_eq_of_note supersessions rfl)
    exact map_id_setStatus ..
  | skip id => exact hp.of_marked (ids_markSkipped p id) rfl
  | extend failed new replacement =>
    obtain ⟨hfailed, hnew, hfresh⟩ := hc
    exact hp.extend hfailed hnew hfresh

theorem changed (hp : p.Ascending) (h : Changed p q) : q.Ascending := by
  induction h with
  | refl => exact hp
  | change _ hc ih => exact ih.change hc

theorem dependencyState_eq_iff (hp : p.Ascending) {id : StepId} {state : DependencyState} :
    p.dependencyState id = state ↔ p.Settles id state := by
  have hlength : p.ids.length = p.steps.length := List.length_map ..
  have hsettles : p.Settles id (p.dependencyState id) :=
    stateWithin_settles (fun h => (hp.behind h).2) _ (by omega)
  constructor
  · rintro rfl
    exact hsettles
  · exact hsettles.unique

/-- Each name on the way is a step further behind, so the way is no longer than the rest of the
plan. -/
theorem exists_trail (hp : p.Ascending) (id : StepId) :
    ∃ trail, p.Trail id trail ∧ trail.length + p.ids.idxOf id ≤ p.ids.length + 1 := by
  have hle := List.idxOf_le_length (a := id) (l := p.ids)
  by_cases hend : ∃ next, p.PassesOn id next
  · obtain ⟨next, hnext⟩ := hend
    obtain ⟨hmem, hlt⟩ := hp.behind hnext.2
    obtain ⟨rest, hrest, hlength⟩ := hp.exists_trail next
    refine ⟨id :: rest, .next hnext hrest, ?_⟩
    rw [List.length_cons]
    omega
  · refine ⟨[id], .last (not_exists.1 hend), ?_⟩
    rw [List.length_singleton]
    omega
termination_by p.ids.length - p.ids.idxOf id
decreasing_by
  have hbound := List.idxOf_lt_length_of_mem hmem
  omega

end Ascending

/-- Rounds beyond the length of the way do nothing. -/
theorem Trail.stateWithin_eq {id : StepId} {trail : List StepId} (h : p.Trail id trail) {m n : Nat}
    (hm : trail.length ≤ m) (hn : trail.length ≤ n) : p.stateWithin m id = p.stateWithin n id := by
  induction h generalizing m n with
  | @last id hend =>
    obtain ⟨m, rfl⟩ := Nat.exists_eq_add_of_lt hm
    obtain ⟨n, rfl⟩ := Nat.exists_eq_add_of_lt hn
    simp only [stateWithin]
    cases hs : p.step? id with
    | none => rfl
    | some s =>
      dsimp only
      cases hstatus : s.status with
      | completed | pending | running => rfl
      | failed | skipped =>
        cases hnext : p.supersessions.get? id with
        | none => rfl
        | some next => exact absurd ⟨⟨s, hs, by simp [hstatus]⟩, hnext⟩ (hend next)
  | @next id next rest hpass hrest ih =>
    obtain ⟨m, rfl⟩ := Nat.exists_eq_add_of_lt hm
    obtain ⟨n, rfl⟩ := Nat.exists_eq_add_of_lt hn
    obtain ⟨⟨s, hs, hlost⟩, hnext⟩ := hpass
    have hsame := ih (m := rest.length + m) (n := rest.length + n) (by omega) (by omega)
    rw [stateWithin, stateWithin, hs]
    rcases hlost with hstatus | hstatus <;> simp only [hstatus, hnext, hsame]

theorem ascending_ofSteps (task taskKind : String) {steps : List Step}
    (h : (steps.map (·.id)).Nodup) : (ofSteps task taskKind steps).Ascending where
  distinct := h
  behind hab := by cases hab

/-- Whatever is done to a plan, each stand-in is a step further behind, so the bounded walk reaches
the end of every way along the stand-ins. -/
theorem stand_ins_ascend {task taskKind : String} {steps : List Step}
    (hnodup : (steps.map (·.id)).Nodup) (h : Changed (ofSteps task taskKind steps) q) :
    (∀ a b, q.supersessions.get? a = some b → ∃ (i j : Nat) (s t : Step), i < j ∧
      q.steps[i]? = some s ∧ s.id = a ∧ q.steps[j]? = some t ∧ t.id = b) ∧
    ∀ id,
      (∃ trail, q.Trail id trail ∧ trail.length ≤ q.steps.length + 1 ∧
        ∀ rounds, trail.length ≤ rounds → q.stateWithin rounds id = q.dependencyState id) ∧
      ∀ state, q.dependencyState id = state ↔ q.Settles id state := by
  have hq : q.Ascending := (ascending_ofSteps task taskKind hnodup).changed h
  have hlength : q.ids.length = q.steps.length := List.length_map ..
  have hplace : ∀ id ∈ q.ids, ∃ s, q.steps[q.ids.idxOf id]? = some s ∧ s.id = id := by
    intro id hid
    have hname : q.ids[q.ids.idxOf id]? = some id := List.getElem?_idxOf hid
    rw [ids, List.getElem?_map] at hname
    exact Option.map_eq_some_iff.1 hname
  constructor
  · intro a b hab
    obtain ⟨hb, hlt⟩ := hq.behind hab
    have ha : a ∈ q.ids :=
      List.idxOf_lt_length_iff.1 (Nat.lt_trans hlt (List.idxOf_lt_length_of_mem hb))
    obtain ⟨s, hs, hsa⟩ := hplace a ha
    obtain ⟨t, ht, htb⟩ := hplace b hb
    exact ⟨_, _, s, t, hlt, hs, hsa, ht, htb⟩
  · intro id
    obtain ⟨trail, htrail, hbound⟩ := hq.exists_trail id
    have hshort : trail.length ≤ q.steps.length + 1 := by omega
    refine ⟨⟨trail, htrail, hshort, fun rounds hrounds => ?_⟩, fun state => ?_⟩
    · exact htrail.stateWithin_eq hrounds hshort
    · exact hq.dependencyState_eq_iff

/-- A step is given up, and so is the step that stands in for it; then the first step is repaired
again, and its new stand-in is done. -/
theorem stand_ins_ascend_twice :
    let s (id : StepId) : Step := { id, order := 1, stage := .verify, action := "a" }
    let p := ofSteps "task" "kind" [s "a", s "b"]
    let q := ((((p.markFailed "a").extend "a" [s "r"] (some "r")).markSkipped "r").extend "a"
      [s "t", s "u"] (some "u")).markCompleted "u"
    (([s "a", s "b"].map (·.id)).Nodup ∧ Changed p q) ∧
      q.supersessions.get? "a" = some "u" ∧ q.Settles "a" .satisfied := by
  intro s p q
  have hnodup : ([s "a", s "b"].map (·.id)).Nodup := by decide
  have hfailed : Changed p (p.markFailed "a") := .change (c := .fail "a") .refl trivial
  have hfirst := hfailed.change (c := .extend "a" [s "r"] (some "r"))
    ⟨by decide, by decide, by decide⟩
  have hskipped := hfirst.change (c := .skip "r") trivial
  have hsecond := hskipped.change (c := .extend "a" [s "t", s "u"] (some "u"))
    ⟨by decide +kernel, by decide, by decide +kernel⟩
  have hq : Changed p q := hsecond.change (c := .complete "u") trivial
  obtain ⟨-, hstate⟩ := stand_ins_ascend hnodup hq
  refine ⟨⟨hnodup, hq⟩, by decide +kernel, ?_⟩
  exact ((hstate "a").2 .satisfied).1 (by decide +kernel)

end WorkbookPlan.Plan
