import WorkbookPlan.Proofs.Step.Ancestors
import WorkbookPlan.Proofs.Step.Cycle
import WorkbookPlan.Proofs.Step.Schedule

/-! What taking a graph apart leaves over: the nodes from which a way leads to a cycle, and no
others. Names may stand for several steps, and then the last one counts. -/
namespace WorkbookPlan

open Relation

namespace Graph

variable {g : Graph} {i j : Nat} {ids : List StepId} {id : StepId} {steps : List Step}

theorem notMem_peel_of_acc {rest : List Nat} (h : Acc (Function.swap g.Edge) i) :
    i ∉ (g.peel rest).2 := by
  induction h with
  | intro i _ ih =>
    intro hi
    obtain ⟨j, hedge, hj⟩ := exists_dep_of_mem_peel hi
    exact ih j hedge hj

/-- Only finitely many nodes have edges. -/
theorem finite_edges (hlt : ∀ i j, g.Edge i j → i < g.size) : {i | ∃ j, g.Edge i j}.Finite :=
  (Set.finite_lt_nat g.size).subset fun i ⟨j, hedge⟩ => hlt i j hedge

theorem mem_stuck_iff (hfrom : ∀ i j, g.Edge i j → i < g.size)
    (hto : ∀ i j, g.Edge i j → j < g.size) : i ∈ g.stuck ↔ ReachesCycle g.Edge i := by
  constructor
  · intro hi
    by_contra hnone
    exact notMem_peel_of_acc (acc_of_not_reachesCycle (finite_edges hfrom) hnone) hi
  · rintro ⟨c, hpath, hcycle⟩
    by_contra hi
    have hnode : i ∈ g.nodes := by
      obtain ⟨j, hedge, -⟩ := TransGen.head'_iff.1 (TransGen.trans_right hpath hcycle)
      exact mem_nodes.2 (hfrom i j hedge)
    have hacc : Acc (Function.swap g.Edge) i := acc_of_notMem_stuck hto i hnode hi
    exact not_transGen_self (acc_of_reaches hacc hpath) hcycle

theorem stuck_sorted (g : Graph) : g.stuck.Pairwise (· < ·) := by
  obtain ⟨which, hwhich⟩ := peel_stuck_eq_filter g g.nodes
  rw [stuck, hwhich]
  exact List.pairwise_lt_range.filter which

theorem ne_of_lastIndex? (h : lastIndex? ids id = some i) (hlt : i < j) : ids[j]? ≠ some id := by
  induction ids generalizing i j with
  | nil => simp
  | cons x xs ih =>
    obtain ⟨j, rfl⟩ := Nat.exists_eq_add_one_of_ne_zero (Nat.ne_of_gt (Nat.zero_lt_of_lt hlt))
    rw [List.getElem?_cons_succ]
    rw [lastIndex?] at h
    cases hrest : lastIndex? xs id with
    | some k =>
      rw [hrest] at h
      obtain rfl : k + 1 = i := Option.some.inj h
      exact ih hrest (Nat.lt_of_succ_lt_succ hlt)
    | none =>
      intro hj
      obtain ⟨k, hk⟩ := exists_lastIndex? (List.mem_of_getElem? hj)
      rw [hrest] at hk
      cases hk

/-- The last place of a name. -/
theorem lastIndex?_eq_some_iff :
    lastIndex? ids id = some i ↔ ids[i]? = some id ∧ ∀ j, i < j → ids[j]? ≠ some id := by
  constructor
  · exact fun h => ⟨getElem?_of_lastIndex? h, fun j hlt => ne_of_lastIndex? h hlt⟩
  · rintro ⟨hi, hlast⟩
    obtain ⟨k, hk⟩ := exists_lastIndex? (List.mem_of_getElem? hi)
    rcases Nat.lt_trichotomy i k with hlt | rfl | hlt
    · exact absurd (getElem?_of_lastIndex? hk) (hlast k hlt)
    · exact hk
    · exact absurd hi (ne_of_lastIndex? hk hlt)

theorem lastIndex?_ids_iff : lastIndex? (steps.map (·.id)) id = some i ↔
    (∃ s, steps[i]? = some s ∧ s.id = id) ∧
      ∀ j t, i < j → steps[j]? = some t → t.id ≠ id := by
  rw [lastIndex?_eq_some_iff, List.getElem?_map, Option.map_eq_some_iff]
  refine and_congr_right fun _ => ⟨fun h j t hlt ht hname => ?_, fun h j hlt hj => ?_⟩
  · refine h j hlt ?_
    rw [List.getElem?_map, ht, Option.map_some, hname]
  · rw [List.getElem?_map] at hj
    obtain ⟨t, ht, hname⟩ := Option.map_eq_some_iff.1 hj
    exact h j t hlt ht hname

end Graph

namespace Step

/-- The step at the first position depends on the one at the second: on a name that this step is the
last one to bear. -/
def WaitsFor (steps : List Step) (i j : Nat) : Prop :=
  ∃ s t, steps[i]? = some s ∧ steps[j]? = some t ∧ t.id ∈ s.dependsOn ∧
    ∀ k u, j < k → steps[k]? = some u → u.id ≠ t.id

theorem edge_ofSteps (steps : List Step) : (Graph.ofSteps steps).Edge = WaitsFor steps := by
  funext i j
  rw [eq_iff_iff]
  constructor
  · intro hedge
    cases hs : steps[i]? with
    | none =>
      rw [Graph.Edge, Graph.depsOf_ofSteps_eq_nil hs] at hedge
      cases hedge
    | some s =>
      obtain ⟨d, hd, hlast⟩ := (Graph.mem_depsOf_ofSteps hs).1 hedge
      obtain ⟨⟨t, ht, rfl⟩, hnone⟩ := Graph.lastIndex?_ids_iff.1 hlast
      exact ⟨s, t, hs, ht, hd, hnone⟩
  · rintro ⟨s, t, hs, ht, hd, hnone⟩
    have hlast := Graph.lastIndex?_ids_iff.2 ⟨⟨t, ht, rfl⟩, hnone⟩
    exact (Graph.mem_depsOf_ofSteps hs).2 ⟨t.id, hd, hlast⟩

theorem WaitsFor.lt {steps : List Step} {i j : Nat} (h : WaitsFor steps i j) :
    i < steps.length ∧ j < steps.length := by
  obtain ⟨s, t, hs, ht, -⟩ := h
  exact ⟨(List.getElem?_eq_some_iff.1 hs).1, (List.getElem?_eq_some_iff.1 ht).1⟩

theorem mem_stuck_ofSteps {steps : List Step} {i : Nat} :
    i ∈ (Graph.ofSteps steps).stuck ↔ ReachesCycle (WaitsFor steps) i := by
  rw [← edge_ofSteps]
  refine Graph.mem_stuck_iff (fun i j hedge => ?_) fun i j hedge => ?_ <;>
    rw [edge_ofSteps] at hedge <;> rw [Graph.size_ofSteps]
  · exact hedge.lt.1
  · exact hedge.lt.2

end Step

namespace StructureReport

open Step

theorem map_some_getD_stuckIds? (steps : List Step) :
    ((stuckIds? steps).getD []).map some =
      (Graph.ofSteps steps).stuck.map fun i => steps[i]?.map (·.id) := by
  rw [getD_stuckIds?_eq, List.map_filterMap, List.map_filterMap_some_eq_filter_map_isSome,
    List.filter_eq_self.2]
  intro name hname
  obtain ⟨i, hi, rfl⟩ := List.mem_map.1 hname
  obtain ⟨s, hs⟩ := Graph.exists_of_mem_stuck hi
  rw [hs]
  rfl

/-- The steps from which a cycle can be reached are told, in their order, and there are none just if
there is no cycle. -/
theorem stuckIds?_exact (steps : List Step) :
    (stuckIds? steps = none ↔ ∀ i, ¬ TransGen (WaitsFor steps) i i) ∧
      ∀ ids, stuckIds? steps = some ids → ∃ places : List Nat, places.Pairwise (· < ·) ∧
        (∀ i, i ∈ places ↔ ReachesCycle (WaitsFor steps) i) ∧
        ids.map some = places.map fun i => steps[i]?.map (·.id) := by
  have hnone : stuckIds? steps = none ↔ ∀ i, ¬ TransGen (WaitsFor steps) i i := by
    rw [stuckIds?_eq_none_iff, List.eq_nil_iff_forall_not_mem]
    simp only [mem_stuck_ofSteps]
    constructor
    · exact fun h i hcycle => h i ⟨i, .refl, hcycle⟩
    · rintro h i ⟨c, -, hcycle⟩
      exact h c hcycle
  refine ⟨hnone, fun ids hids => ?_⟩
  have hnames : ids.map some =
      (Graph.ofSteps steps).stuck.map fun i => steps[i]?.map (·.id) := by
    have hall := map_some_getD_stuckIds? steps
    rwa [hids] at hall
  exact ⟨(Graph.ofSteps steps).stuck, Graph.stuck_sorted _, fun _ => mem_stuck_ofSteps, hnames⟩

/-- Of two steps of one name the last one counts, also for those before it. -/
example :
    let step (id : StepId) (dependsOn : List StepId) : Step :=
      { id, order := 1, stage := .verify, action := "verify", dependsOn }
    stuckIds? [step "a" ["b"], step "b" ["a"], step "a" []] = none ∧
      stuckIds? [step "a" [], step "b" ["a"], step "a" ["b"], step "c" ["a", "a", "x"]] =
        some ["b", "a", "c"] := by
  decide +kernel

end StructureReport

end WorkbookPlan
