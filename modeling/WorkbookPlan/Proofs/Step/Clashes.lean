import WorkbookPlan.Proofs.Step.Batches
import WorkbookPlan.Proofs.Step.Footprint

/-! Clashes: the pairs of steps that write on a common cell in no fixed order, each pair once, by the
places of its steps. -/
namespace WorkbookPlan

open Relation Step

section Pairs

variable {α : Type _} {r : α → α → Prop} {xs : List α} {a b : α}

/-- Each member with each one behind it. -/
def orderedPairs : List α → List (α × α)
  | [] => []
  | x :: xs => xs.map (x, ·) ++ orderedPairs xs

theorem mem_of_mem_orderedPairs (h : (a, b) ∈ orderedPairs xs) : a ∈ xs ∧ b ∈ xs := by
  induction xs with
  | nil => cases h
  | cons x xs ih =>
    rcases List.mem_append.1 h with h | h
    · obtain ⟨y, hy, hpair⟩ := List.mem_map.1 h
      cases hpair
      exact ⟨List.mem_cons_self, List.mem_cons_of_mem _ hy⟩
    · exact ⟨List.mem_cons_of_mem _ (ih h).1, List.mem_cons_of_mem _ (ih h).2⟩

theorem mem_orderedPairs_iff (hasymm : ∀ a b, r a b → ¬ r b a) (h : xs.Pairwise r) :
    (a, b) ∈ orderedPairs xs ↔ a ∈ xs ∧ b ∈ xs ∧ r a b := by
  induction xs with
  | nil => simp [orderedPairs]
  | cons x xs ih =>
    obtain ⟨hfirst, hrest⟩ := List.pairwise_cons.1 h
    rw [orderedPairs, List.mem_append, ih hrest]
    constructor
    · rintro (h | ⟨ha, hb, hab⟩)
      · obtain ⟨y, hy, hpair⟩ := List.mem_map.1 h
        cases hpair
        exact ⟨List.mem_cons_self, List.mem_cons_of_mem _ hy, hfirst _ hy⟩
      · exact ⟨List.mem_cons_of_mem _ ha, List.mem_cons_of_mem _ hb, hab⟩
    · rintro ⟨ha, hb, hab⟩
      -- The second member stands behind the first one, so it is not the head.
      have hbehind : b ∈ xs := by
        rcases List.mem_cons.1 hb with rfl | hb
        · rcases List.mem_cons.1 ha with rfl | ha
          · exact absurd hab (hasymm _ _ hab)
          · exact absurd hab (hasymm _ _ (hfirst _ ha))
        · exact hb
      rcases List.mem_cons.1 ha with rfl | ha
      · exact .inl (List.mem_map_of_mem hbehind)
      · exact .inr ⟨ha, hbehind, hab⟩

theorem pairwise_orderedPairs (h : xs.Pairwise r) :
    (orderedPairs xs).Pairwise (Prod.Lex r r) := by
  induction xs with
  | nil => exact .nil
  | cons x xs ih =>
    obtain ⟨hfirst, hrest⟩ := List.pairwise_cons.1 h
    refine List.pairwise_append.2 ⟨?_, ih hrest, ?_⟩
    · exact List.pairwise_map.2 (hrest.imp fun h => Prod.Lex.right _ h)
    · intro p hp ⟨a, b⟩ hab
      obtain ⟨y, -, rfl⟩ := List.mem_map.1 hp
      exact Prod.Lex.left _ _ (hfirst a (mem_of_mem_orderedPairs hab).1)

theorem zipIdx_pairwise (xs : List α) : xs.zipIdx.Pairwise fun a b => a.2 < b.2 := by
  rw [← List.pairwise_map (f := Prod.snd), List.zipIdx_map_snd]
  exact List.pairwise_lt_range'

theorem mem_orderedPairs_zipIdx {i j : Nat} : ((a, i), (b, j)) ∈ orderedPairs xs.zipIdx ↔
    xs[i]? = some a ∧ xs[j]? = some b ∧ i < j := by
  rw [mem_orderedPairs_iff (fun _ _ => Nat.lt_asymm) (zipIdx_pairwise xs),
    List.mem_zipIdx_iff_getElem?, List.mem_zipIdx_iff_getElem?]

end Pairs

namespace Writes

variable {g : Graph} {steps : List Step} {i j : Nat} {s t : Step} {c : Clash}

/-- Both steps write on some cell of the sheet, and no way along the dependencies leads from one to
the other. -/
structure Clashing (steps : List Step) (sheet : String) (s t : Step) : Prop where
  touches : ∃ cell, s.Touches sheet cell ∧ t.Touches sheet cell
  not_before : ¬ TransGen (Needs steps) t.id s.id
  not_behind : ¬ TransGen (Needs steps) s.id t.id

theorem clash?_eq_some_iff (hnodup : (steps.map (·.id)).Nodup) (hi : steps[i]? = some s)
    (hj : steps[j]? = some t) : clash? (.ofSteps steps) i j s t = some c ↔
      ∃ sheet, Clashing steps sheet s t ∧ c = ⟨sheet, s.id, t.id⟩ := by
  have hbehind := Graph.mem_ancestors_ofSteps hnodup hi hj
  have hbefore := Graph.mem_ancestors_ofSteps hnodup hj hi
  unfold clash?
  constructor
  · intro h
    split at h
    · next hall =>
      simp only [Bool.and_eq_true, Bool.not_eq_true', ← Bool.not_eq_true, List.contains_iff_mem,
        hbehind, hbefore] at hall
      obtain ⟨⟨hcollides, hnotBehind⟩, hnotBefore⟩ := hall
      obtain ⟨sheet, cell, hs, ht⟩ := collides_iff_touches.1 hcollides
      rw [footprint?_of_sheet? hs.isWrite hs.sheet] at h
      cases h
      exact ⟨sheet, ⟨⟨cell, hs, ht⟩, hnotBefore, hnotBehind⟩, rfl⟩
    · cases h
  · rintro ⟨sheet, ⟨⟨cell, hs, ht⟩, hnotBefore, hnotBehind⟩, rfl⟩
    have hcollides : s.collides t = true := collides_iff_touches.2 ⟨sheet, cell, hs, ht⟩
    rw [← hbehind] at hnotBehind
    rw [← hbefore] at hnotBefore
    rw [if_pos (by simp [hcollides, hnotBehind, hnotBefore]),
      footprint?_of_sheet? hs.isWrite hs.sheet]
    rfl

def placed? (g : Graph) (p : (Step × Nat) × (Step × Nat)) : Option ((Nat × Nat) × Clash) :=
  (clash? g p.1.2 p.2.2 p.1.1 p.2.1).map ((p.1.2, p.2.2), ·)

theorem clashesFrom_eq (g : Graph) (places : List (Step × Nat)) :
    clashesFrom g places = ((orderedPairs places).filterMap (placed? g)).map Prod.snd := by
  induction places with
  | nil => rfl
  | cons a places ih =>
    rw [clashesFrom, ih, orderedPairs, List.filterMap_append, List.map_append, List.filterMap_map]
    congr 1
    rw [List.map_filterMap]
    refine List.filterMap_congr fun b _ => ?_
    simp [placed?, Function.comp_def]

def placedClashes (steps : List Step) : List ((Nat × Nat) × Clash) :=
  (orderedPairs steps.zipIdx).filterMap (placed? (.ofSteps steps))

theorem map_snd_placedClashes (steps : List Step) :
    (placedClashes steps).map Prod.snd = clashes steps :=
  (clashesFrom_eq _ _).symm

theorem placedClashes_pairwise (steps : List Step) :
    ((placedClashes steps).map Prod.fst).Pairwise (Prod.Lex (· < ·) (· < ·)) := by
  rw [placedClashes, List.pairwise_map, List.pairwise_filterMap]
  refine (pairwise_orderedPairs (zipIdx_pairwise steps)).imp fun hlex p hp q hq => ?_
  obtain ⟨c, -, rfl⟩ := Option.map_eq_some_iff.1 hp
  obtain ⟨d, -, rfl⟩ := Option.map_eq_some_iff.1 hq
  cases hlex with
  | left _ _ h => exact .left _ _ h
  | right _ h => exact .right _ h

theorem mem_placedClashes : ((i, j), c) ∈ placedClashes steps ↔ ∃ s t, steps[i]? = some s ∧
    steps[j]? = some t ∧ i < j ∧ clash? (.ofSteps steps) i j s t = some c := by
  rw [placedClashes, List.mem_filterMap]
  constructor
  · rintro ⟨⟨⟨s, i⟩, ⟨t, j⟩⟩, hpair, hplaced⟩
    obtain ⟨c, hclash, hc⟩ := Option.map_eq_some_iff.1 hplaced
    cases hc
    obtain ⟨hi, hj, hlt⟩ := mem_orderedPairs_zipIdx.1 hpair
    exact ⟨s, t, hi, hj, hlt, hclash⟩
  · rintro ⟨s, t, hi, hj, hlt, hclash⟩
    exact ⟨((s, i), (t, j)), mem_orderedPairs_zipIdx.2 ⟨hi, hj, hlt⟩,
      Option.map_eq_some_iff.2 ⟨_, hclash, rfl⟩⟩

theorem mem_placedClashes_iff (hnodup : (steps.map (·.id)).Nodup) :
    ((i, j), c) ∈ placedClashes steps ↔ i < j ∧ ∃ s t sheet, steps[i]? = some s ∧
      steps[j]? = some t ∧ Clashing steps sheet s t ∧ c = ⟨sheet, s.id, t.id⟩ := by
  rw [mem_placedClashes]
  constructor
  · rintro ⟨s, t, hi, hj, hlt, hclash⟩
    obtain ⟨sheet, hclashing, rfl⟩ := (clash?_eq_some_iff hnodup hi hj).1 hclash
    exact ⟨hlt, s, t, sheet, hi, hj, hclashing, rfl⟩
  · rintro ⟨hlt, s, t, sheet, hi, hj, hclashing, rfl⟩
    exact ⟨s, t, hi, hj, hlt, (clash?_eq_some_iff hnodup hi hj).2 ⟨sheet, hclashing, rfl⟩⟩

/-- Steps that collide clash if no way leads from one to the other, also when names are repeated. -/
theorem mem_clashes_of_unordered {sheet : String} (hi : steps[i]? = some s)
    (hj : steps[j]? = some t) (hij : i < j) (hcollides : s.collides t = true)
    (hsheet : s.sheet? = some sheet) (hbehind : ¬ TransGen (Needs steps) s.id t.id)
    (hbefore : ¬ TransGen (Needs steps) t.id s.id) : ⟨sheet, s.id, t.id⟩ ∈ clashes steps := by
  obtain ⟨sheet', area, -, hfootprint, -, -⟩ := collides_iff.1 hcollides
  obtain rfl : sheet' = sheet :=
    Option.some.inj ((sheet?_of_footprint? hfootprint).2.symm.trans hsheet)
  have hnotBehind : j ∉ (Graph.ofSteps steps).ancestors i :=
    mt (Graph.needs_of_mem_ancestors hi hj) hbehind
  have hnotBefore : i ∉ (Graph.ofSteps steps).ancestors j :=
    mt (Graph.needs_of_mem_ancestors hj hi) hbefore
  have hclash : clash? (.ofSteps steps) i j s t = some ⟨sheet', s.id, t.id⟩ := by
    rw [clash?, if_pos (by simp [hcollides, hnotBehind, hnotBefore]), hfootprint]
    rfl
  rw [← map_snd_placedClashes]
  exact List.mem_map.2 ⟨_, mem_placedClashes.2 ⟨s, t, hi, hj, hij, hclash⟩, rfl⟩

/-- The clashes are those of the steps at any two places that clash, in the order of the places. -/
theorem clashes_exact (steps : List Step) (hnodup : (steps.map (·.id)).Nodup) :
    ∃ listed : List ((Nat × Nat) × Clash), listed.map Prod.snd = clashes steps ∧
      (listed.map Prod.fst).Pairwise (Prod.Lex (· < ·) (· < ·)) ∧
      ∀ i j c, ((i, j), c) ∈ listed ↔ i < j ∧ ∃ s t sheet, steps[i]? = some s ∧
        steps[j]? = some t ∧ Clashing steps sheet s t ∧ c = ⟨sheet, s.id, t.id⟩ :=
  ⟨placedClashes steps, map_snd_placedClashes steps, placedClashes_pairwise steps,
    fun _ _ _ => mem_placedClashes_iff hnodup⟩

theorem clashes_exact_crossing : (crossing.map (·.id)).Nodup ∧
    clashes crossing = [⟨"Data", "a", "b"⟩, ⟨"Data", "a", "e"⟩] ∧
    ∃ listed : List ((Nat × Nat) × Clash),
      listed.map Prod.snd = [⟨"Data", "a", "b"⟩, ⟨"Data", "a", "e"⟩] ∧
      ∀ i j c, ((i, j), c) ∈ listed ↔ i < j ∧ ∃ s t sheet, crossing[i]? = some s ∧
        crossing[j]? = some t ∧ Clashing crossing sheet s t ∧ c = ⟨sheet, s.id, t.id⟩ := by
  have hnodup : (crossing.map (·.id)).Nodup := by decide
  have hclashes : clashes crossing = [⟨"Data", "a", "b"⟩, ⟨"Data", "a", "e"⟩] := by
    decide +kernel
  obtain ⟨listed, hlisted, -, hmem⟩ := clashes_exact crossing hnodup
  exact ⟨hnodup, hclashes, listed, hlisted.trans hclashes, hmem⟩

end Writes

end WorkbookPlan
