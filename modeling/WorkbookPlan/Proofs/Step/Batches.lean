import Mathlib.Data.List.Perm.Basic
import WorkbookPlan.Proofs.Step.Ancestors
import WorkbookPlan.Proofs.Step.Cycle
import WorkbookPlan.Proofs.Step.Schedule

/-! Batches of steps: each step is in one of them, steps of one batch do not write on the same cells,
and a step that leads to no cycle comes after all that it depends on. -/
namespace WorkbookPlan

open Step

namespace Graph

variable {g : Graph} {rest : List Nat}

theorem free_append_bound_perm (g : Graph) (rest : List Nat) :
    (g.free rest ++ g.bound rest).Perm rest := by
  have hbound : g.bound rest =
      rest.filter fun i => !(g.depsOf i).all (!rest.contains ·) := by
    refine List.filter_congr fun i hi => ?_
    rw [Bool.eq_iff_iff]
    simp [mem_free, hi]
  rw [hbound]
  exact List.filter_append_perm _ rest

/-- Taking the graph apart loses no node. -/
theorem peel_perm (g : Graph) (rest : List Nat) :
    ((g.peel rest).1.flatten ++ (g.peel rest).2).Perm rest := by
  induction rest using peel.induct g with
  | case1 rest h =>
    rw [peel, dif_pos h]
    exact List.Perm.refl rest
  | case2 rest h _ _ _ ih =>
    rw [peel, dif_neg h]
    rw [List.flatten_cons, List.append_assoc]
    exact (ih.append_left _).trans (free_append_bound_perm g rest)

theorem mem_of_mem_peel {layer : List Nat} (h : layer ∈ (g.peel rest).1) {i : Nat}
    (hi : i ∈ layer) : i ∈ rest := by
  refine (peel_perm g rest).mem_iff.1 (List.mem_append_left _ ?_)
  exact List.mem_flatten_of_mem h hi

/-- No edge leads from a layer to itself or to a later one. -/
theorem peel_layers_apart (g : Graph) (rest : List Nat) :
    (∀ layer ∈ (g.peel rest).1, ∀ i ∈ layer, ∀ j ∈ layer, ¬ g.Edge i j) ∧
      (g.peel rest).1.Pairwise fun here later => ∀ i ∈ here, ∀ j ∈ later, ¬ g.Edge i j := by
  induction rest using peel.induct g with
  | case1 rest h =>
    rw [peel, dif_pos h]
    exact ⟨List.forall_mem_nil _, .nil⟩
  | case2 rest h _ _ _ ih =>
    rw [peel, dif_neg h]
    have hfree : ∀ i ∈ g.free rest, ∀ j ∈ rest, ¬ g.Edge i j := fun i hi j hj hedge =>
      (mem_free.1 hi).2 j hedge hj
    constructor
    · refine List.forall_mem_cons.2 ⟨fun i hi j hj => ?_, ih.1⟩
      exact hfree i hi j (mem_free.1 hj).1
    · refine List.pairwise_cons.2 ⟨fun later hlater i hi j hj => ?_, ih.2⟩
      exact hfree i hi j (mem_bound.1 (mem_of_mem_peel hlater hj)).1

end Graph

namespace Writes

section Groups

variable {α : Type _} {against : α → α → Bool}

/-- A group has members, and none of them has anything against those before it. -/
def Peaceful (against : α → α → Bool) (group : List α) : Prop :=
  group ≠ [] ∧ group.Pairwise fun x y => against y x = false

theorem putInGroup_perm (against : α → α → Bool) (x : α) (gs : List (List α)) :
    (putInGroup against x gs).flatten.Perm (x :: gs.flatten) := by
  induction gs with
  | nil => exact List.Perm.refl [x]
  | cons g gs ih =>
    rw [putInGroup]
    split
    · rw [List.flatten_cons, List.flatten_cons, List.append_assoc]
      exact List.perm_middle
    · rw [List.flatten_cons, List.flatten_cons]
      exact (ih.append_left g).trans List.perm_middle

theorem peaceful_putInGroup {x : α} {gs : List (List α)} (h : ∀ g ∈ gs, Peaceful against g) :
    ∀ g ∈ putInGroup against x gs, Peaceful against g := by
  induction gs with
  | nil =>
    intro g hg
    rw [List.mem_singleton.1 hg]
    exact ⟨List.cons_ne_nil x [], List.pairwise_singleton _ x⟩
  | cons g gs ih =>
    obtain ⟨hg, hgs⟩ := List.forall_mem_cons.1 h
    rw [putInGroup]
    split
    · next hnone =>
      refine List.forall_mem_cons.2 ⟨⟨List.append_ne_nil_of_right_ne_nil g (List.cons_ne_nil x []), ?_⟩, hgs⟩
      refine List.pairwise_append.2 ⟨hg.2, List.pairwise_singleton _ x, fun y hy z hz => ?_⟩
      rw [List.mem_singleton.1 hz]
      simpa using List.all_eq_true.1 hnone y hy
    · exact List.forall_mem_cons.2 ⟨hg, ih hgs⟩

theorem groups_perm (against : α → α → Bool) (xs : List α) :
    (groups against xs).flatten.Perm xs := by
  have hfold : ∀ gs : List (List α),
      (xs.foldl (fun gs x => putInGroup against x gs) gs).flatten.Perm (gs.flatten ++ xs) := by
    induction xs with
    | nil =>
      intro gs
      rw [List.append_nil]
      exact List.Perm.refl _
    | cons x xs ih =>
      intro gs
      refine (ih _).trans ?_
      exact ((putInGroup_perm against x gs).append_right xs).trans List.perm_middle.symm
  exact hfold []

theorem peaceful_groups (against : α → α → Bool) (xs : List α) :
    ∀ g ∈ groups against xs, Peaceful against g :=
  List.foldlRecOn (motive := fun gs => ∀ g ∈ gs, Peaceful against g) xs _
    (fun _ h => nomatch h) fun _ hgs _ _ => peaceful_putInGroup hgs

end Groups

def stepsAt (steps : List Step) (places : List Nat) : List Step :=
  places.filterMap fun i => steps[i]?

def layered (steps : List Step) : List (List Step) :=
  (Graph.ofSteps steps).layers.flatMap fun layer =>
    groups Step.collides (stepsAt steps layer)

def tangled (steps : List Step) : List Step :=
  stepsAt steps (Graph.ofSteps steps).stuck

variable {steps : List Step}

theorem batches_eq (steps : List Step) :
    batches steps = (layered steps).map (·.map (·.id)) ++ (tangled steps).map fun s => [s.id] := by
  rw [layered, List.map_flatMap]
  rfl

theorem stepsAt_append (steps : List Step) (here there : List Nat) :
    stepsAt steps (here ++ there) = stepsAt steps here ++ stepsAt steps there :=
  List.filterMap_append

theorem stepsAt_nodes (steps : List Step) :
    stepsAt steps (Graph.ofSteps steps).nodes = steps := by
  have hevery : ∀ (i : Nat) (s : Step), steps[i]? = some s →
      (fun _ => true) i = (fun _ => true) s := fun _ _ _ => rfl
  have hall := StructureReport.filterMap_range_filter hevery
  rw [List.filter_true, List.filter_true] at hall
  rw [Graph.nodes, Graph.size_ofSteps]
  exact hall

theorem flatten_groups_perm (layers : List (List Nat)) :
    (layers.flatMap fun layer => groups Step.collides (stepsAt steps layer)).flatten.Perm
      (stepsAt steps layers.flatten) := by
  induction layers with
  | nil => exact .nil
  | cons layer layers ih =>
    rw [List.flatMap_cons, List.flatten_append, List.flatten_cons, stepsAt_append]
    exact (groups_perm _ _).append ih

/-- Each step is in one batch, or leads to a cycle. -/
theorem layered_tangled_perm (steps : List Step) :
    ((layered steps).flatten ++ tangled steps).Perm steps := by
  have hparts : ((layered steps).flatten ++ tangled steps).Perm
      (stepsAt steps ((Graph.ofSteps steps).layers.flatten ++ (Graph.ofSteps steps).stuck)) := by
    rw [stepsAt_append]
    exact (flatten_groups_perm _).append_right _
  have hnodes : (stepsAt steps ((Graph.ofSteps steps).layers.flatten ++
      (Graph.ofSteps steps).stuck)).Perm (stepsAt steps (Graph.ofSteps steps).nodes) :=
    (Graph.peel_perm _ _).filterMap fun i => steps[i]?
  rw [stepsAt_nodes] at hnodes
  exact hparts.trans hnodes

theorem batches_perm (steps : List Step) : (batches steps).flatten.Perm (steps.map (·.id)) := by
  have hsingle : ((tangled steps).map fun s => [s.id]).flatten = (tangled steps).map (·.id) := by
    rw [← List.flatMap_def, ← List.map_eq_flatMap]
  have hids : (batches steps).flatten = ((layered steps).flatten ++ tangled steps).map (·.id) := by
    rw [batches_eq, List.flatten_append, List.map_append, List.map_flatten, hsingle]
  rw [hids]
  exact (layered_tangled_perm steps).map _

theorem mem_of_mem_layered {batch : List Step} {s : Step} (h : batch ∈ layered steps)
    (hs : s ∈ batch) : s ∈ steps :=
  (layered_tangled_perm steps).subset (List.mem_append_left _ (List.mem_flatten_of_mem h hs))

theorem peaceful_layered {batch : List Step} (h : batch ∈ layered steps) :
    Peaceful Step.collides batch := by
  obtain ⟨layer, -, hbatch⟩ := List.mem_flatMap.1 h
  exact peaceful_groups _ _ batch hbatch

theorem mem_stepsAt_of_mem_groups {places : List Nat} {batch : List Step} {s : Step}
    (h : batch ∈ groups Step.collides (stepsAt steps places)) (hs : s ∈ batch) :
    ∃ i ∈ places, steps[i]? = some s := by
  have hmem : s ∈ stepsAt steps places :=
    (groups_perm _ _).subset (List.mem_flatten_of_mem h hs)
  exact List.mem_filterMap.1 hmem

section Distinct

variable (hnodup : (steps.map (·.id)).Nodup)

include hnodup

/-- No step waits for one of its own layer or of a later one. -/
theorem not_dependsOn_of_layers {here later : List Nat}
    (hapart : ∀ i ∈ here, ∀ j ∈ later, ¬ (Graph.ofSteps steps).Edge i j) {b b' : List Step}
    (hb : b ∈ groups Step.collides (stepsAt steps here))
    (hb' : b' ∈ groups Step.collides (stepsAt steps later)) :
    ∀ s ∈ b, ∀ t ∈ b', t.id ∉ s.dependsOn := by
  intro s hs t ht hd
  obtain ⟨i, hi, his⟩ := mem_stepsAt_of_mem_groups hb hs
  obtain ⟨j, hj, hjt⟩ := mem_stepsAt_of_mem_groups hb' ht
  exact hapart i hi j hj ((Graph.edge_ofSteps_iff hnodup his hjt).2 hd)

theorem layered_apart :
    (∀ b ∈ layered steps, ∀ s ∈ b, ∀ t ∈ b, t.id ∉ s.dependsOn) ∧
      (layered steps).Pairwise fun here later => ∀ s ∈ here, ∀ t ∈ later, t.id ∉ s.dependsOn := by
  obtain ⟨hown, hlater⟩ := Graph.peel_layers_apart (.ofSteps steps) (Graph.ofSteps steps).nodes
  constructor
  · intro b hb
    obtain ⟨layer, hlayer, hb⟩ := List.mem_flatMap.1 hb
    exact not_dependsOn_of_layers hnodup (hown layer hlayer) hb hb
  · refine List.pairwise_flatMap.2 ⟨fun layer hlayer => ?_, ?_⟩
    · refine List.pairwise_of_forall_mem_list fun b hb b' hb' => ?_
      exact not_dependsOn_of_layers hnodup (hown layer hlayer) hb hb'
    · exact hlater.imp fun hapart b hb b' hb' =>
        not_dependsOn_of_layers hnodup hapart hb hb'

theorem tangled_eq {which : Step → Bool}
    (hwhich : ∀ s ∈ steps, which s = true ↔ LeadsToCycle steps s.id) :
    tangled steps = steps.filter which := by
  refine StructureReport.filterMap_stuck hnodup fun s hs => ?_
  rw [hwhich s hs, founded_iff_not_leadsToCycle, not_not]

theorem leadsToCycle_of_mem_tangled {s : Step} (hs : s ∈ tangled steps) : LeadsToCycle steps s.id := by
  classical
  have hwhich : ∀ s ∈ steps, decide (LeadsToCycle steps s.id) = true ↔ LeadsToCycle steps s.id :=
    fun _ _ => decide_eq_true_iff
  rw [tangled_eq hnodup hwhich] at hs
  exact of_decide_eq_true (List.mem_filter.1 hs).2

/-- The batch of a step that leads to no cycle is before the knot. -/
theorem exists_layered_of_not_leadsToCycle {s : Step} (hs : s ∈ steps)
    (hfree : ¬ LeadsToCycle steps s.id) {i : Nat} {batch : List StepId}
    (hi : (batches steps)[i]? = some batch) (hmem : s.id ∈ batch) :
    ∃ b, (layered steps)[i]? = some b ∧ s ∈ b := by
  rw [batches_eq] at hi
  rcases Nat.lt_or_ge i ((layered steps).map (·.map (·.id))).length with hlt | hge
  · rw [List.getElem?_append_left hlt, List.getElem?_map] at hi
    obtain ⟨b, hb, rfl⟩ := Option.map_eq_some_iff.1 hi
    obtain ⟨t, ht, hid⟩ := List.mem_map.1 hmem
    have hsame : t = s :=
      List.inj_on_of_nodup_map hnodup (mem_of_mem_layered (List.mem_of_getElem? hb) ht) hs hid
    exact ⟨b, hb, hsame ▸ ht⟩
  · rw [List.getElem?_append_right hge] at hi
    obtain ⟨t, ht, rfl⟩ := List.mem_map.1 (List.mem_of_getElem? hi)
    have hid : s.id = t.id := List.mem_singleton.1 hmem
    exact absurd (hid ▸ leadsToCycle_of_mem_tangled hnodup ht) hfree

theorem lt_of_dependsOn {s t : Step} (hs : s ∈ steps) (hfree : ¬ LeadsToCycle steps s.id)
    (ht : t ∈ steps) (hd : t.id ∈ s.dependsOn) {i j : Nat} {b b' : List StepId}
    (hi : (batches steps)[i]? = some b) (htb : t.id ∈ b) (hj : (batches steps)[j]? = some b')
    (hsb : s.id ∈ b') : i < j := by
  have hneeds : Needs steps s.id t.id := ⟨s, hs, rfl, hd⟩
  have htfree : ¬ LeadsToCycle steps t.id := fun h => hfree (.of_needs hneeds h)
  obtain ⟨tb, hit, htb⟩ := exists_layered_of_not_leadsToCycle hnodup ht htfree hi htb
  obtain ⟨sb, hjs, hsb⟩ := exists_layered_of_not_leadsToCycle hnodup hs hfree hj hsb
  obtain ⟨hown, hlater⟩ := layered_apart hnodup
  rcases Nat.lt_trichotomy i j with hlt | rfl | hgt
  · exact hlt
  · obtain rfl := Option.some.inj (hit.symm.trans hjs)
    exact absurd hd (hown tb (List.mem_of_getElem? hit) s hsb t htb)
  · obtain ⟨hj, rfl⟩ := List.getElem?_eq_some_iff.1 hjs
    obtain ⟨hi, rfl⟩ := List.getElem?_eq_some_iff.1 hit
    exact absurd hd (List.pairwise_iff_getElem.1 hlater j i hj hi hgt s hsb t htb)

/-- Two steps of one batch do not write on the same cells. -/
theorem collides_eq_false_of_mem {batch : List StepId} (hbatch : batch ∈ batches steps) {s t : Step}
    (hs : s ∈ steps) (ht : t ∈ steps) (hsb : s.id ∈ batch) (htb : t.id ∈ batch) (hne : s ≠ t) :
    s.collides t = false := by
  rw [batches_eq] at hbatch
  rcases List.mem_append.1 hbatch with hbatch | hbatch
  · obtain ⟨b, hb, rfl⟩ := List.mem_map.1 hbatch
    have hmem : ∀ u ∈ steps, u.id ∈ b.map (·.id) → u ∈ b := by
      intro u hu hub
      obtain ⟨v, hv, hid⟩ := List.mem_map.1 hub
      exact List.inj_on_of_nodup_map hnodup (mem_of_mem_layered hb hv) hu hid ▸ hv
    have : Std.Symm fun u v : Step => v.collides u = false :=
      ⟨fun u v h => by rwa [Step.collides_comm]⟩
    rw [Step.collides_comm]
    exact (peaceful_layered hb).2.forall (hmem s hs hsb) (hmem t ht htb) hne
  · obtain ⟨u, -, rfl⟩ := List.mem_map.1 hbatch
    have hid : s.id = t.id := (List.mem_singleton.1 hsb).trans (List.mem_singleton.1 htb).symm
    exact absurd (List.inj_on_of_nodup_map hnodup hs ht hid) hne

end Distinct

theorem nil_notMem_batches (steps : List Step) : [] ∉ batches steps := by
  rw [batches_eq, List.mem_append]
  rintro (h | h)
  · obtain ⟨b, hb, hnil⟩ := List.mem_map.1 h
    exact (peaceful_layered hb).1 (List.map_eq_nil_iff.1 hnil)
  · obtain ⟨s, -, hnil⟩ := List.mem_map.1 h
    exact List.cons_ne_nil _ _ hnil

/-- Writes in one batch touch different cells, and what a step waits for is in an earlier batch.
Steps that lead to a cycle come last, one by one. -/
theorem batches_schedule (steps : List Step) (hnodup : (steps.map (·.id)).Nodup) :
    (batches steps).flatten.Perm (steps.map (·.id)) ∧ [] ∉ batches steps ∧
    (∀ batch ∈ batches steps, ∀ s ∈ steps, ∀ t ∈ steps, s.id ∈ batch → t.id ∈ batch → s ≠ t →
      ∀ sheet area area', s.footprint? = some (sheet, area) →
        t.footprint? = some (sheet, area') → area.overlaps area' = false) ∧
    (∀ s ∈ steps, ¬ LeadsToCycle steps s.id → ∀ t ∈ steps, t.id ∈ s.dependsOn →
      ∀ (i j : Nat) b b', (batches steps)[i]? = some b → t.id ∈ b → (batches steps)[j]? = some b' →
        s.id ∈ b' → i < j) ∧
    ∃ which : Step → Bool, (∀ s ∈ steps, which s = true ↔ LeadsToCycle steps s.id) ∧
      (StructureReport.stuckIds? steps).getD [] = (steps.filter which).map (·.id) ∧
      ∃ front, batches steps = front ++ (steps.filter which).map fun s => [s.id] := by
  have hapart : ∀ batch ∈ batches steps, ∀ s ∈ steps, ∀ t ∈ steps, s.id ∈ batch → t.id ∈ batch →
      s ≠ t → ∀ sheet area area', s.footprint? = some (sheet, area) →
        t.footprint? = some (sheet, area') → area.overlaps area' = false := by
    intro batch hbatch s hs t ht hsb htb hne sheet area area' hfoot hfoot'
    have hfree := collides_eq_false_of_mem hnodup hbatch hs ht hsb htb hne
    by_contra hoverlap
    have hcollides : s.collides t = true :=
      Step.collides_iff.2 ⟨sheet, area, area', hfoot, hfoot', Bool.eq_true_of_not_eq_false hoverlap⟩
    exact Bool.false_ne_true (hfree.symm.trans hcollides)
  refine ⟨batches_perm steps, nil_notMem_batches steps, hapart, ?_, ?_⟩
  · intro s hs hfree t ht hd i j b b' hi htb hj hsb
    exact lt_of_dependsOn hnodup hs hfree ht hd hi htb hj hsb
  · classical
    let which (s : Step) : Bool := decide (LeadsToCycle steps s.id)
    have hwhich : ∀ s ∈ steps, which s = true ↔ LeadsToCycle steps s.id :=
      fun _ _ => decide_eq_true_iff
    have hstuck : (StructureReport.stuckIds? steps).getD [] = (steps.filter which).map (·.id) := by
      rw [StructureReport.getD_stuckIds?_eq, ← tangled_eq hnodup hwhich]
      rfl
    have hlast : batches steps = (layered steps).map (·.map (·.id)) ++
        (steps.filter which).map fun s => [s.id] := by
      rw [batches_eq, tangled_eq hnodup hwhich]
    exact ⟨which, hwhich, hstuck, _, hlast⟩

/-- The first two steps write on the same cells, and the third and the fourth wait for each other;
the last one waits twice for the second, and for a step that is not there. -/
def crossing : List Step :=
  let write (id : StepId) (range : String) (dependsOn : List StepId) : Step :=
    { id, order := 1, stage := .writeData, action := "write", isWrite := true, dependsOn,
      parameters := .object [("sheet", .str "Data"), ("range", .str range)] }
  [write "a" "A1:B2" [], write "b" "B2:C3" [], write "c" "F1" ["d"], write "d" "F1" ["c", "a"],
    write "e" "A1" ["b", "b", "x"]]

theorem batches_schedule_crossing : (crossing.map (·.id)).Nodup ∧
    batches crossing = [["a"], ["b"], ["e"], ["c"], ["d"]] ∧
    (batches crossing).flatten.Perm ["a", "b", "c", "d", "e"] ∧
    ∃ which : Step → Bool, (crossing.filter which).map (·.id) = ["c", "d"] ∧
      ∀ s ∈ crossing, which s = true ↔ LeadsToCycle crossing s.id := by
  have hnodup : (crossing.map (·.id)).Nodup := by decide
  have hstuck : (StructureReport.stuckIds? crossing).getD [] = ["c", "d"] := by decide +kernel
  obtain ⟨hperm, -, -, -, which, hwhich, hids, -⟩ := batches_schedule crossing hnodup
  exact ⟨hnodup, by decide +kernel, hperm, which, hids.symm.trans hstuck, hwhich⟩

end Writes

end WorkbookPlan
