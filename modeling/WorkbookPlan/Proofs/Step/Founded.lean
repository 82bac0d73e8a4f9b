import WorkbookPlan.Proofs.Step.Peel

/-! Names from which every way along the dependencies comes to an end. They are those of the steps
that peel away, and steps that are put behind others can be founded on these. -/
namespace WorkbookPlan

open Relation

namespace Step

/-- A step of the first name waits for the second. -/
def Needs (steps : List Step) (id d : StepId) : Prop :=
  ∃ s ∈ steps, s.id = id ∧ d ∈ s.dependsOn

/-- Every way along the dependencies of the name comes to an end. -/
def Founded (steps : List Step) (id : StepId) : Prop :=
  Acc (Function.swap (Needs steps)) id

variable {steps : List Step}

theorem founded_of_needs {id : StepId} (h : ∀ d, Needs steps id d → Founded steps d) :
    Founded steps id :=
  Acc.intro id h

/-- A name that no step bears waits for nothing. -/
theorem founded_of_notMem {id : StepId} (h : id ∉ steps.map (·.id)) : Founded steps id := by
  refine founded_of_needs fun d ⟨s, hs, hid, _⟩ => ?_
  exact absurd (hid ▸ List.mem_map_of_mem hs) h

theorem founded_of_dependsOn (hnodup : (steps.map (·.id)).Nodup) {s : Step} (hs : s ∈ steps)
    (h : ∀ d ∈ s.dependsOn, Founded steps d) : Founded steps s.id := by
  refine founded_of_needs fun d ⟨t, ht, hid, hd⟩ => ?_
  obtain rfl := List.inj_on_of_nodup_map hnodup ht hs hid
  exact h d hd

/-- Steps behind others take nothing away from the foundation of these. -/
theorem Founded.append {new : List Step} (hnodup : ((steps ++ new).map (·.id)).Nodup)
    (hclosed : ∀ s ∈ steps, ∀ d ∈ s.dependsOn, d ∈ steps.map (·.id)) {id : StepId}
    (h : Founded steps id) (hid : id ∈ steps.map (·.id)) : Founded (steps ++ new) id := by
  induction h with
  | intro id _ ih =>
    obtain ⟨s, hs, rfl⟩ := List.mem_map.1 hid
    refine founded_of_dependsOn hnodup (List.mem_append_left _ hs) fun d hd => ?_
    exact ih d ⟨s, hs, rfl, hd⟩ (hclosed s hs d hd)

end Step

namespace Graph

open Step

variable {steps : List Step}

theorem notMem_stuck_of_founded {i : Nat} {s : Step} (hi : steps[i]? = some s)
    (h : Founded steps s.id) : i ∉ (ofSteps steps).stuck := by
  generalize hid : s.id = id at h
  induction h generalizing i s with
  | intro id _ ih =>
    subst hid
    intro hstuck
    obtain ⟨j, hdep, hj⟩ := exists_dep_of_mem_peel hstuck
    obtain ⟨d, hd, hlast⟩ := (mem_depsOf_ofSteps hi).1 hdep
    obtain ⟨t, ht, hname⟩ := exists_of_lastIndex? hlast
    exact ih d ⟨s, List.mem_of_getElem? hi, rfl, hd⟩ ht hname hj

theorem founded_iff_notMem_stuck (hnodup : (steps.map (·.id)).Nodup) {i : Nat} {s : Step}
    (hi : steps[i]? = some s) : Founded steps s.id ↔ i ∉ (ofSteps steps).stuck := by
  refine ⟨notMem_stuck_of_founded hi, positions_induction (fun t ht ih => ?_) hi⟩
  refine founded_of_dependsOn hnodup ht fun d hd => ?_
  by_cases hmem : d ∈ steps.map (·.id)
  · exact ih d hd hmem
  · exact founded_of_notMem hmem

section Closed

variable (hnodup : (steps.map (·.id)).Nodup)
  (hclosed : ∀ s ∈ steps, ∀ d ∈ s.dependsOn, d ∈ steps.map (·.id))

include hnodup hclosed

theorem stuck_eq_nil_iff :
    (ofSteps steps).stuck = [] ↔ ∀ s ∈ steps, Founded steps s.id := by
  constructor
  · intro h
    exact steps_induction hclosed h fun _ hs => founded_of_dependsOn hnodup hs
  · intro h
    refine List.eq_nil_iff_forall_not_mem.2 fun i hi => ?_
    obtain ⟨s, hs⟩ := exists_of_mem_stuck hi
    exact notMem_stuck_of_founded hs (h s (List.mem_of_getElem? hs)) hi

theorem not_transGen_needs (hstuck : (ofSteps steps).stuck = []) (id : StepId) :
    ¬ TransGen (Needs steps) id id := by
  intro hloop
  obtain ⟨d, ⟨s, hs, rfl, -⟩, -⟩ := TransGen.head'_iff.1 hloop
  exact not_transGen_self ((stuck_eq_nil_iff hnodup hclosed).1 hstuck s hs) hloop

end Closed

end Graph

namespace StructureReport

open Step

variable {steps : List Step}

theorem ofSteps_eq_empty_iff : ofSteps steps = {} ↔
    (steps.map (·.id)).Nodup ∧ (∀ s ∈ steps, ∀ d ∈ s.dependsOn, d ∈ steps.map (·.id)) ∧
      ∀ s ∈ steps, Founded steps s.id := by
  constructor
  · intro h
    obtain ⟨hnodup, hclosed, hstuck⟩ := ofSteps_eq_empty h
    exact ⟨hnodup, hclosed, (Graph.stuck_eq_nil_iff hnodup hclosed).1 hstuck⟩
  · rintro ⟨hnodup, hclosed, hfounded⟩
    exact ofSteps_eq_empty_of_stuck hnodup hclosed
      ((Graph.stuck_eq_nil_iff hnodup hclosed).2 hfounded)

/-- Nothing is wrong with steps behind others, if their names are new and each waits only for steps
before it. -/
theorem ofSteps_append_eq_empty {new : List Step} (h : ofSteps steps = {})
    (hnodup : ((steps ++ new).map (·.id)).Nodup)
    (hearlier : ∀ (i : Nat) (s : Step), new[i]? = some s → ∀ d ∈ s.dependsOn,
      d ∈ steps.map (·.id) ∨ ∃ (j : Nat) (t : Step), j < i ∧ new[j]? = some t ∧ t.id = d) :
    ofSteps (steps ++ new) = {} := by
  obtain ⟨-, hclosed, hfounded⟩ := ofSteps_eq_empty_iff.1 h
  have hold : ∀ s ∈ steps, Founded (steps ++ new) s.id := fun s hs =>
    (hfounded s hs).append hnodup hclosed (List.mem_map_of_mem hs)
  have hnew : ∀ (i : Nat) (s : Step), new[i]? = some s → Founded (steps ++ new) s.id := by
    intro i
    induction i using Nat.strongRecOn with
    | ind i ih =>
      intro s hs
      refine founded_of_dependsOn hnodup (List.mem_append_right _ (List.mem_of_getElem? hs))
        fun d hd => ?_
      rcases hearlier i s hs d hd with hd | ⟨j, t, hj, ht, rfl⟩
      · obtain ⟨t, ht, rfl⟩ := List.mem_map.1 hd
        exact hold t ht
      · exact ih j hj t ht
  refine ofSteps_eq_empty_iff.2 ⟨hnodup, fun s hs d hd => ?_, fun s hs => ?_⟩
  · rw [List.map_append, List.mem_append]
    rcases List.mem_append.1 hs with hs | hs
    · exact .inl (hclosed s hs d hd)
    · obtain ⟨i, hi⟩ := List.mem_iff_getElem?.1 hs
      refine (hearlier i s hi d hd).imp_right ?_
      rintro ⟨j, t, -, ht, rfl⟩
      exact List.mem_map_of_mem (List.mem_of_getElem? ht)
  · rcases List.mem_append.1 hs with hs | hs
    · exact hold s hs
    · obtain ⟨i, hi⟩ := List.mem_iff_getElem?.1 hs
      exact hnew i s hi

/-- Nothing is wrong with steps that differ in their names and wait only for steps before them. -/
theorem ofSteps_eq_empty_of_earlier (hnodup : (steps.map (·.id)).Nodup)
    (hearlier : ∀ (i : Nat) (s : Step), steps[i]? = some s → ∀ d ∈ s.dependsOn,
      ∃ (j : Nat) (t : Step), j < i ∧ steps[j]? = some t ∧ t.id = d) : ofSteps steps = {} := by
  have hnone : ofSteps [] = {} := ofSteps_eq_empty_iff.2 ⟨.nil, by simp, by simp⟩
  exact ofSteps_append_eq_empty hnone hnodup fun i s hs d hd => .inr (hearlier i s hs d hd)

end StructureReport

end WorkbookPlan
