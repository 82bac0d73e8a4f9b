import Mathlib.Data.List.Perm.Subperm
import WorkbookPlan.Proofs.Sheet.Area
import WorkbookPlan.Proofs.Step.Founded
import WorkbookPlan.Step.Writes

/-! What a step depends on, directly or through others, is found in as many rounds as there are
steps; so two writes clash just if they touch the same cells and no way leads from one to the other.
-/
namespace WorkbookPlan

open Relation Step

namespace Graph

variable {g : Graph} {i j rounds : Nat} {seen : List Nat}

def Edge (g : Graph) (i j : Nat) : Prop :=
  j ∈ g.depsOf i

def frontier (g : Graph) (seen : List Nat) : List Nat :=
  ((seen.flatMap g.depsOf).filter (!seen.contains ·)).eraseDups

theorem closure_succ (g : Graph) (rounds : Nat) (seen : List Nat) :
    g.closure (rounds + 1) seen =
      if g.frontier seen = [] then seen else g.closure rounds (seen ++ g.frontier seen) := by
  rw [closure]
  simp only [List.isEmpty_iff]
  rfl

theorem mem_frontier : j ∈ g.frontier seen ↔ (∃ k ∈ seen, g.Edge k j) ∧ j ∉ seen := by
  simp [frontier, Edge]

theorem subset_closure (rounds : Nat) (seen : List Nat) : seen ⊆ g.closure rounds seen := by
  induction rounds generalizing seen with
  | zero => exact List.Subset.refl seen
  | succ rounds ih =>
    rw [closure_succ]
    split
    · exact List.Subset.refl seen
    · exact List.Subset.trans (List.subset_append_left _ _) (ih _)

/-- Nothing is found but what can be reached. -/
theorem reaches_of_mem_closure (h : j ∈ g.closure rounds seen) :
    ∃ k ∈ seen, ReflTransGen g.Edge k j := by
  induction rounds generalizing seen with
  | zero => exact ⟨j, h, .refl⟩
  | succ rounds ih =>
    rw [closure_succ] at h
    split at h
    · exact ⟨j, h, .refl⟩
    · obtain ⟨k, hk, hpath⟩ := ih h
      rcases List.mem_append.1 hk with hold | hnew
      · exact ⟨k, hold, hpath⟩
      · obtain ⟨⟨m, hm, hedge⟩, -⟩ := mem_frontier.1 hnew
        exact ⟨m, hm, .head hedge hpath⟩

/-- Each round finds a new node, so what is found in the end is closed. -/
theorem mem_closure_of_edge (hlt : ∀ i j, g.Edge i j → j < g.size) (hseen : seen ⊆ g.nodes)
    (hnodup : seen.Nodup) (hrounds : g.size ≤ seen.length + rounds) {k : Nat}
    (hj : j ∈ g.closure rounds seen) (hedge : g.Edge j k) : k ∈ g.closure rounds seen := by
  induction rounds generalizing seen with
  | zero =>
    have hlength : g.nodes.length ≤ seen.length := by simpa [nodes] using hrounds
    have hall : seen.Perm g.nodes :=
      (List.subperm_of_subset hnodup hseen).perm_of_length_le hlength
    exact hall.mem_iff.2 (mem_nodes.2 (hlt j k hedge))
  | succ rounds ih =>
    rw [closure_succ] at hj ⊢
    split
    · next hnone =>
      rw [if_pos hnone] at hj
      by_contra hnew
      have hmem : k ∈ g.frontier seen := mem_frontier.2 ⟨⟨j, hj, hedge⟩, hnew⟩
      rw [hnone] at hmem
      cases hmem
    · next hsome =>
      rw [if_neg hsome] at hj
      have hlength : 0 < (g.frontier seen).length := List.length_pos_of_ne_nil hsome
      refine ih (List.append_subset.2 ⟨hseen, fun m hm => ?_⟩) ?_ ?_ hj
      · obtain ⟨⟨n, -, hn⟩, -⟩ := mem_frontier.1 hm
        exact mem_nodes.2 (hlt n m hn)
      · refine List.nodup_append.2 ⟨hnodup, nodup_eraseDups _, fun a ha b hb hab => ?_⟩
        exact (mem_frontier.1 hb).2 (hab ▸ ha)
      · rw [List.length_append]
        omega

theorem mem_ancestors_iff (hlt : ∀ i j, g.Edge i j → j < g.size) :
    j ∈ g.ancestors i ↔ TransGen g.Edge i j := by
  have hdirect : ∀ {k}, k ∈ (g.depsOf i).eraseDups ↔ g.Edge i k := List.mem_eraseDups
  constructor
  · intro h
    obtain ⟨k, hk, hpath⟩ := reaches_of_mem_closure h
    exact .head' (hdirect.1 hk) hpath
  · intro h
    induction h with
    | single hedge => exact subset_closure _ _ (hdirect.2 hedge)
    | tail _ hedge ih =>
      refine mem_closure_of_edge hlt (fun k hk => ?_) (nodup_eraseDups _) (Nat.le_add_left _ _) ih
        hedge
      exact mem_nodes.2 (hlt i k (hdirect.1 hk))

section Steps

variable {steps : List Step} {s t : Step}

theorem dependsOn_of_edge (hi : steps[i]? = some s) (hj : steps[j]? = some t)
    (h : (ofSteps steps).Edge i j) : t.id ∈ s.dependsOn := by
  rw [Edge, mem_depsOf_ofSteps hi] at h
  obtain ⟨d, hd, hlast⟩ := h
  obtain ⟨u, hu, rfl⟩ := exists_of_lastIndex? hlast
  obtain rfl := Option.some.inj (hj.symm.trans hu)
  exact hd

/-- A way between positions is one between names. -/
theorem needs_of_mem_ancestors (hi : steps[i]? = some s) (hj : steps[j]? = some t)
    (h : j ∈ (ofSteps steps).ancestors i) : TransGen (Needs steps) s.id t.id := by
  rw [mem_ancestors_iff fun i j h => (size_ofSteps steps).symm ▸ lt_of_mem_depsOf_ofSteps h] at h
  induction h generalizing t with
  | single hedge =>
    exact .single ⟨s, List.mem_of_getElem? hi, rfl, dependsOn_of_edge hi hj hedge⟩
  | @tail k j hpath hedge ih =>
    have hk : k < steps.length := by
      obtain ⟨m, -, hm⟩ := TransGen.tail'_iff.1 hpath
      exact lt_of_mem_depsOf_ofSteps hm
    have hu := List.getElem?_eq_getElem hk
    exact .tail (ih hu) ⟨_, List.getElem_mem hk, rfl, dependsOn_of_edge hu hj hedge⟩

variable (hnodup : (steps.map (·.id)).Nodup)

include hnodup

theorem edge_ofSteps_iff (hi : steps[i]? = some s) (hj : steps[j]? = some t) :
    (ofSteps steps).Edge i j ↔ t.id ∈ s.dependsOn := by
  refine ⟨dependsOn_of_edge hi hj, fun hd => ?_⟩
  obtain ⟨k, hk⟩ := exists_lastIndex? (List.mem_map_of_mem (List.mem_of_getElem? hj) :
    t.id ∈ steps.map (·.id))
  rw [Edge, mem_depsOf_ofSteps hi]
  refine ⟨t.id, hd, ?_⟩
  have hname := getElem?_of_lastIndex? hk
  have hsame : (steps.map (·.id))[j]? = some t.id := by simp [hj]
  obtain ⟨hlt, -⟩ := List.getElem?_eq_some_iff.1 hsame
  rw [(List.getElem?_inj hlt hnodup).1 (hsame.trans hname.symm), hk]

/-- The ways between positions are those between names. -/
theorem mem_ancestors_ofSteps (hi : steps[i]? = some s) (hj : steps[j]? = some t) :
    j ∈ (ofSteps steps).ancestors i ↔ TransGen (Needs steps) s.id t.id := by
  refine ⟨needs_of_mem_ancestors hi hj, fun h => ?_⟩
  rw [mem_ancestors_iff fun i j h => (size_ofSteps steps).symm ▸ lt_of_mem_depsOf_ofSteps h]
  generalize hid : t.id = id at h
  induction h generalizing j t with
  | single hneeds =>
    obtain ⟨u, hu, hsame, hd⟩ := hneeds
    obtain rfl := List.inj_on_of_nodup_map hnodup hu (List.mem_of_getElem? hi) hsame
    exact .single ((edge_ofSteps_iff hnodup hi hj).2 (hid ▸ hd))
  | tail _ hneeds ih =>
    obtain ⟨u, hu, hsame, hd⟩ := hneeds
    obtain ⟨k, hk⟩ := List.mem_iff_getElem?.1 hu
    exact .tail (ih hk hsame) ((edge_ofSteps_iff hnodup hk hj).2 (hid ▸ hd))

end Steps

end Graph

namespace WriteArea

theorem overlaps_comm (a b : WriteArea) : a.overlaps b = b.overlaps a := by
  cases a with
  | wholeSheet => cases b <;> rfl
  | cells a =>
    cases b with
    | wholeSheet => rfl
    | cells b => exact Sheet.Area.overlaps_comm a b

end WriteArea

namespace Step

variable {s t : Step}

theorem collides_iff : s.collides t = true ↔ ∃ sheet area area',
    s.footprint? = some (sheet, area) ∧ t.footprint? = some (sheet, area') ∧
      area.overlaps area' = true := by
  unfold collides
  cases s.footprint? with
  | none => simp
  | some here =>
    cases t.footprint? with
    | none => simp
    | some there =>
      obtain ⟨sheet, area⟩ := here
      obtain ⟨sheet', area'⟩ := there
      simp only [Bool.and_eq_true, beq_iff_eq, Option.some.injEq, Prod.mk.injEq]
      constructor
      · rintro ⟨rfl, hoverlap⟩
        exact ⟨_, _, _, ⟨rfl, rfl⟩, ⟨rfl, rfl⟩, hoverlap⟩
      · rintro ⟨_, _, _, ⟨rfl, rfl⟩, ⟨rfl, rfl⟩, hoverlap⟩
        exact ⟨rfl, hoverlap⟩

theorem collides_comm (s t : Step) : s.collides t = t.collides s := by
  rw [Bool.eq_iff_iff, collides_iff, collides_iff]
  constructor <;>
    · rintro ⟨sheet, area, area', h, h', hoverlap⟩
      exact ⟨sheet, area', area, h', h, WriteArea.overlaps_comm area area' ▸ hoverlap⟩

end Step

namespace Writes

variable {g : Graph} {steps : List Step}

/-- The two steps do not collide, or a way leads from one to the other. -/
def Settled (steps : List Step) (s t : Step) : Prop :=
  s.collides t = true → TransGen (Needs steps) s.id t.id ∨ TransGen (Needs steps) t.id s.id

theorem Settled.symm {s t : Step} (h : Settled steps s t) : Settled steps t s := fun hcollides =>
  (h (collides_comm s t ▸ hcollides)).symm

theorem clash?_eq_none_iff {i j : Nat} {s t : Step} :
    clash? g i j s t = none ↔
      (s.collides t = true → j ∈ g.ancestors i ∨ i ∈ g.ancestors j) := by
  unfold clash?
  cases hcollides : s.collides t with
  | false => simp
  | true =>
    obtain ⟨sheet, area, -, hfootprint, -⟩ := collides_iff.1 hcollides
    by_cases hij : j ∈ g.ancestors i <;> by_cases hji : i ∈ g.ancestors j <;>
      simp [hij, hji, hfootprint]

theorem clashesFrom_eq_nil_iff {places : List (Step × Nat)} :
    clashesFrom g places = [] ↔
      places.Pairwise fun a b => clash? g a.2 b.2 a.1 b.1 = none := by
  induction places with
  | nil => simp [clashesFrom]
  | cons a places ih =>
    rw [clashesFrom, List.append_eq_nil_iff, ih, List.filterMap_eq_nil_iff, List.pairwise_cons]

/-- No two steps clash if any two that collide stand in a fixed order. -/
theorem clashes_eq_nil_iff (hnodup : (steps.map (·.id)).Nodup) :
    clashes steps = [] ↔ steps.Pairwise (Settled steps) := by
  have hplaces : steps.Pairwise (Settled steps) ↔
      steps.zipIdx.Pairwise fun a b => Settled steps a.1 b.1 := by
    rw [← List.pairwise_map (f := Prod.fst), List.zipIdx_map_fst]
  rw [clashes, clashesFrom_eq_nil_iff, hplaces]
  refine List.Pairwise.iff_of_mem fun {a b} ha hb => ?_
  have ha := List.mem_zipIdx_iff_getElem?.1 ha
  have hb := List.mem_zipIdx_iff_getElem?.1 hb
  rw [clash?_eq_none_iff, Settled, Graph.mem_ancestors_ofSteps hnodup ha hb,
    Graph.mem_ancestors_ofSteps hnodup hb ha]

end Writes

end WorkbookPlan
