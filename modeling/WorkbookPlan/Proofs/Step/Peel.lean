import Mathlib.Data.List.Nodup
import Mathlib.Logic.Relation
import WorkbookPlan.Verdict.Structure

/-! What peeling tells about a graph, and what it means that nothing is wrong with a list of steps.
-/
namespace WorkbookPlan

open Relation

theorem not_transGen_self {α : Type _} {r : α → α → Prop} {a : α}
    (h : Acc (Function.swap r) a) : ¬ TransGen r a a := by
  have hpath : Acc (TransGen (Function.swap r)) a := h.transGen
  induction hpath with
  | intro a _ ih =>
    intro hloop
    exact ih a (transGen_swap.2 hloop) h hloop

theorem nodup_eraseDups {α : Type _} [BEq α] [LawfulBEq α] (xs : List α) : xs.eraseDups.Nodup := by
  cases xs with
  | nil => exact List.nodup_nil
  | cons x xs =>
    rw [List.eraseDups_cons, List.nodup_cons]
    refine ⟨?_, nodup_eraseDups _⟩
    simp
termination_by xs.length
decreasing_by
  exact Nat.lt_succ_of_le (List.length_filter_le ..)

namespace Graph

variable {g : Graph}

theorem mem_nodes {i : Nat} : i ∈ g.nodes ↔ i < g.size :=
  List.mem_range

theorem mem_free {rest : List Nat} {i : Nat} :
    i ∈ g.free rest ↔ i ∈ rest ∧ ∀ j ∈ g.depsOf i, j ∉ rest := by
  simp [free]

theorem mem_bound {rest : List Nat} {i : Nat} :
    i ∈ g.bound rest ↔ i ∈ rest ∧ i ∉ g.free rest := by
  simp [bound]

theorem peel_stuck_subset (g : Graph) (rest : List Nat) : (g.peel rest).2 ⊆ rest := by
  induction rest using peel.induct g with
  | case1 rest h =>
    rw [peel, dif_pos h]
    exact List.Subset.refl _
  | case2 rest h _ _ _ ih =>
    rw [peel, dif_neg h]
    exact fun i hi => (mem_bound.1 (ih hi)).1

/-- Induction along the edges, over the nodes that peel away. -/
theorem peel_induction {P : Nat → Prop} (rest : List Nat)
    (hdeps : ∀ i ∈ rest, ∀ j ∈ g.depsOf i, j ∈ rest ∨ P j)
    (hstep : ∀ i ∈ rest, (∀ j ∈ g.depsOf i, P j) → P i) :
    ∀ i ∈ rest, i ∉ (g.peel rest).2 → P i := by
  induction rest using peel.induct g with
  | case1 rest h =>
    rw [peel, dif_pos h]
    exact fun i hi hnot => absurd hi hnot
  | case2 rest h _ _ _ ih =>
    rw [peel, dif_neg h]
    have hfree : ∀ i ∈ g.free rest, P i := fun i hi => by
      obtain ⟨hi, hnone⟩ := mem_free.1 hi
      exact hstep i hi fun j hj => (hdeps i hi j hj).resolve_left (hnone j hj)
    have hbound : ∀ i ∈ g.bound rest, i ∉ (g.peel (g.bound rest)).2 → P i := by
      refine ih (fun i hi j hj => ?_) fun i hi => hstep i (mem_bound.1 hi).1
      rcases hdeps i (mem_bound.1 hi).1 j hj with hj | hj
      · by_cases hjfree : j ∈ g.free rest
        · exact .inr (hfree j hjfree)
        · exact .inl (mem_bound.2 ⟨hj, hjfree⟩)
      · exact .inr hj
    intro i hi hnot
    by_cases hifree : i ∈ g.free rest
    · exact hfree i hifree
    · exact hbound i (mem_bound.2 ⟨hi, hifree⟩) hnot

/-- What is left over has no free nodes. -/
theorem exists_dep_of_mem_peel {rest : List Nat} {i : Nat} (h : i ∈ (g.peel rest).2) :
    ∃ j ∈ g.depsOf i, j ∈ (g.peel rest).2 := by
  induction rest using peel.induct g with
  | case1 rest hfree =>
    rw [peel, dif_pos hfree] at h ⊢
    by_contra hnone
    push Not at hnone
    have hmem : i ∈ g.free rest := mem_free.2 ⟨h, hnone⟩
    rw [hfree] at hmem
    cases hmem
  | case2 rest hfree _ _ _ ih =>
    rw [peel, dif_neg hfree] at h ⊢
    exact ih h

theorem peel_stuck_eq_filter (g : Graph) (rest : List Nat) :
    ∃ which : Nat → Bool, (g.peel rest).2 = rest.filter which := by
  induction rest using peel.induct g with
  | case1 rest h =>
    rw [peel, dif_pos h]
    exact ⟨fun _ => true, by simp⟩
  | case2 rest h _ _ _ ih =>
    rw [peel, dif_neg h]
    obtain ⟨which, hwhich⟩ := ih
    exact ⟨_, hwhich.trans List.filter_filter⟩

theorem getElem?_of_lastIndex? {ids : List StepId} {id : StepId} {i : Nat}
    (h : lastIndex? ids id = some i) : ids[i]? = some id := by
  induction ids generalizing i with
  | nil => simp [lastIndex?] at h
  | cons x xs ih =>
    rw [lastIndex?] at h
    cases hrest : lastIndex? xs id with
    | some j =>
      rw [hrest] at h
      obtain rfl : j + 1 = i := Option.some.inj h
      exact ih hrest
    | none =>
      rw [hrest] at h
      obtain ⟨hx, rfl⟩ : x = id ∧ 0 = i := by simpa using h
      rw [hx, List.getElem?_cons_zero]

theorem exists_lastIndex? {ids : List StepId} {id : StepId} (h : id ∈ ids) :
    ∃ i, lastIndex? ids id = some i := by
  induction ids with
  | nil => cases h
  | cons x xs ih =>
    rw [lastIndex?]
    cases hrest : lastIndex? xs id with
    | some j => exact ⟨j + 1, rfl⟩
    | none =>
      rcases List.mem_cons.1 h with rfl | hmem
      · exact ⟨0, if_pos rfl⟩
      · obtain ⟨j, hj⟩ := ih hmem
        simp [hrest] at hj

@[simp] theorem size_ofSteps (steps : List Step) : (ofSteps steps).size = steps.length :=
  List.length_map ..

theorem depsOf_ofSteps {steps : List Step} {i : Nat} {s : Step} (h : steps[i]? = some s) :
    (ofSteps steps).depsOf i = s.dependsOn.filterMap (lastIndex? (steps.map (·.id))) := by
  simp [depsOf, ofSteps, List.getD_eq_getElem?_getD, h]

theorem depsOf_ofSteps_eq_nil {steps : List Step} {i : Nat} (h : steps[i]? = none) :
    (ofSteps steps).depsOf i = [] := by
  simp [depsOf, ofSteps, List.getD_eq_getElem?_getD, h]

theorem lt_of_mem_depsOf_ofSteps {steps : List Step} {i j : Nat}
    (h : j ∈ (ofSteps steps).depsOf i) : j < steps.length := by
  cases hs : steps[i]? with
  | none =>
    rw [depsOf_ofSteps_eq_nil hs] at h
    cases h
  | some s =>
    rw [depsOf_ofSteps hs] at h
    obtain ⟨d, -, hd⟩ := List.mem_filterMap.1 h
    have hlt := (List.getElem?_eq_some_iff.1 (getElem?_of_lastIndex? hd)).1
    simpa using hlt

/-- An edge goes to the step of a name that the step waits for. -/
theorem mem_depsOf_ofSteps {steps : List Step} {i j : Nat} {s : Step} (hi : steps[i]? = some s) :
    j ∈ (ofSteps steps).depsOf i ↔
      ∃ d ∈ s.dependsOn, lastIndex? (steps.map (·.id)) d = some j := by
  rw [depsOf_ofSteps hi, List.mem_filterMap]

theorem exists_of_lastIndex? {steps : List Step} {id : StepId} {j : Nat}
    (h : lastIndex? (steps.map (·.id)) id = some j) : ∃ t, steps[j]? = some t ∧ t.id = id := by
  have hname := getElem?_of_lastIndex? h
  rw [List.getElem?_map] at hname
  exact Option.map_eq_some_iff.1 hname

theorem exists_of_mem_stuck {steps : List Step} {i : Nat} (h : i ∈ (ofSteps steps).stuck) :
    ∃ s, steps[i]? = some s := by
  have hlt : i < steps.length := by
    simpa [mem_nodes] using peel_stuck_subset _ _ h
  exact ⟨_, List.getElem?_eq_getElem hlt⟩

/-- Induction along the dependencies of steps, over the positions that peel away. -/
theorem positions_induction {steps : List Step} {P : StepId → Prop}
    (hstep : ∀ s ∈ steps, (∀ d ∈ s.dependsOn, d ∈ steps.map (·.id) → P d) → P s.id) {i : Nat}
    {s : Step} (hs : steps[i]? = some s) (hi : i ∉ (ofSteps steps).stuck) : P s.id := by
  have hall : ∀ i ∈ (ofSteps steps).nodes, i ∉ (ofSteps steps).stuck →
      ∀ s, steps[i]? = some s → P s.id := by
    refine peel_induction _ (fun i _ j hj => .inl ?_) fun i _ ih s hi => ?_
    · rw [mem_nodes, size_ofSteps]
      exact lt_of_mem_depsOf_ofSteps hj
    · refine hstep s (List.mem_of_getElem? hi) fun d hd hmem => ?_
      obtain ⟨j, hj⟩ := exists_lastIndex? hmem
      obtain ⟨t, ht, rfl⟩ := exists_of_lastIndex? hj
      exact ih j ((mem_depsOf_ofSteps hi).2 ⟨t.id, hd, hj⟩) t ht
  have hlt := (List.getElem?_eq_some_iff.1 hs).1
  exact hall i (by rwa [mem_nodes, size_ofSteps]) hi s hs

/-- Induction along the dependencies of steps, if all are in the list and the graph peels away. -/
theorem steps_induction {steps : List Step} {P : StepId → Prop}
    (hclosed : ∀ s ∈ steps, ∀ d ∈ s.dependsOn, d ∈ steps.map (·.id))
    (hstuck : (ofSteps steps).stuck = [])
    (hstep : ∀ s ∈ steps, (∀ d ∈ s.dependsOn, P d) → P s.id) : ∀ s ∈ steps, P s.id := by
  intro s hs
  obtain ⟨i, hi⟩ := List.mem_iff_getElem?.1 hs
  refine positions_induction (fun t ht ih => ?_) hi (hstuck ▸ List.not_mem_nil)
  exact hstep t ht fun d hd => ih d hd (hclosed t ht d hd)

/-- Every way from a node that peels away comes to an end. -/
theorem acc_of_notMem_stuck (hlt : ∀ i, ∀ j ∈ g.depsOf i, j < g.size) :
    ∀ i ∈ g.nodes, i ∉ g.stuck → Acc (Function.swap fun i j => j ∈ g.depsOf i) i :=
  peel_induction _ (fun i _ j hj => .inl (mem_nodes.2 (hlt i j hj))) fun i _ ih => Acc.intro i ih

/-- A graph that peels away has no cycle. -/
theorem not_transGen_of_stuck (hlt : ∀ i, ∀ j ∈ g.depsOf i, j < g.size) (hstuck : g.stuck = [])
    (i : Nat) : ¬ TransGen (fun i j => j ∈ g.depsOf i) i i := by
  intro hloop
  have hi : i ∈ g.nodes := by
    obtain ⟨j, -, hj⟩ := TransGen.tail'_iff.1 hloop
    exact mem_nodes.2 (hlt j i hj)
  have hacc := acc_of_notMem_stuck hlt i hi (hstuck ▸ List.not_mem_nil)
  exact not_transGen_self hacc hloop

end Graph

namespace StructureReport

variable {steps : List Step}

theorem repeated_eq_nil_iff {seen ids : List StepId} :
    repeated seen ids = [] ↔ ids.Nodup ∧ ∀ id ∈ ids, id ∉ seen := by
  induction ids generalizing seen with
  | nil => simp [repeated]
  | cons id ids ih =>
    rw [repeated]
    by_cases hid : id ∈ seen
    · simp [hid]
    · have hgrow : (∀ x ∈ ids, x ∉ id :: seen) ↔ id ∉ ids ∧ ∀ x ∈ ids, x ∉ seen := by
        simp only [List.mem_cons, not_or, forall_and]
        exact and_congr_left' ⟨fun h hmem => h id hmem rfl, fun h x hx hxid => h (hxid ▸ hx)⟩
      have hskip : seen.contains id = false := by simpa using hid
      rw [hskip, if_neg Bool.false_ne_true, ih, hgrow, List.nodup_cons, List.forall_mem_cons]
      constructor
      · rintro ⟨hnodup, hnew, hrest⟩
        exact ⟨⟨hnew, hnodup⟩, hid, hrest⟩
      · rintro ⟨⟨hnew, hnodup⟩, -, hrest⟩
        exact ⟨hnodup, hnew, hrest⟩

theorem stuckIds?_eq_none_iff : stuckIds? steps = none ↔ (Graph.ofSteps steps).stuck = [] := by
  constructor
  · intro h
    have hnone : ((Graph.ofSteps steps).stuck.filterMap fun i => steps[i]?.map (·.id)) = [] := by
      unfold stuckIds? at h
      split at h
      · assumption
      · cases h
    refine List.eq_nil_iff_forall_not_mem.2 fun i hi => ?_
    obtain ⟨s, hs⟩ := Graph.exists_of_mem_stuck hi
    have hname := List.filterMap_eq_nil_iff.1 hnone i hi
    rw [hs] at hname
    cases hname
  · intro h
    simp [stuckIds?, h]

theorem stuck_of_cycles (h : (ofSteps steps).cycles = []) : (Graph.ofSteps steps).stuck = [] := by
  refine stuckIds?_eq_none_iff.1 ?_
  simpa [ofSteps] using h

theorem mem_ids_of_missing (h : (ofSteps steps).missing = []) :
    ∀ s ∈ steps, ∀ d ∈ s.dependsOn, d ∈ steps.map (·.id) := by
  intro s hs d hd
  have hnone := List.map_eq_nil_iff.1 (List.flatMap_eq_nil_iff.1 h s hs)
  simpa using List.filter_eq_nil_iff.1 hnone d hd

theorem eq_empty_iff {r : StructureReport} :
    r = {} ↔ r.missing = [] ∧ r.duplicates = [] ∧ r.cycles = [] := by
  cases r
  rw [StructureReport.mk.injEq]

/-- Nothing is wrong: the names differ, all dependencies are in the list, and there is no cycle. -/
theorem ofSteps_eq_empty (h : ofSteps steps = {}) :
    (steps.map (·.id)).Nodup ∧ (∀ s ∈ steps, ∀ d ∈ s.dependsOn, d ∈ steps.map (·.id)) ∧
      (Graph.ofSteps steps).stuck = [] := by
  obtain ⟨hmissing, hduplicates, hcycles⟩ := eq_empty_iff.1 h
  exact ⟨(repeated_eq_nil_iff.1 hduplicates).1, mem_ids_of_missing hmissing,
    stuck_of_cycles hcycles⟩

theorem ofSteps_eq_empty_of_stuck (hnodup : (steps.map (·.id)).Nodup)
    (hclosed : ∀ s ∈ steps, ∀ d ∈ s.dependsOn, d ∈ steps.map (·.id))
    (hstuck : (Graph.ofSteps steps).stuck = []) : ofSteps steps = {} := by
  have hmissing : dangling steps = [] := by
    refine List.flatMap_eq_nil_iff.2 fun s hs => ?_
    rw [List.map_eq_nil_iff, List.filter_eq_nil_iff]
    intro d hd
    simpa using hclosed s hs d hd
  have hduplicates : repeated [] (steps.map (·.id)) = [] :=
    repeated_eq_nil_iff.2 ⟨hnodup, fun _ _ => List.not_mem_nil⟩
  have hcycles : (ofSteps steps).cycles = [] := by
    simp [ofSteps, stuckIds?_eq_none_iff.2 hstuck]
  exact eq_empty_iff.2 ⟨hmissing, hduplicates, hcycles⟩

end StructureReport

end WorkbookPlan
