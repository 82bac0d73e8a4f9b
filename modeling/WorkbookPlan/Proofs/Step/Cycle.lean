import Mathlib.Data.Fintype.Card
import Mathlib.Data.Set.Finite.List
import WorkbookPlan.Proofs.Step.Founded

/-! Cycles among the dependencies of steps. There are finitely many steps, so a name from which some
way does not end leads into a cycle. -/
namespace WorkbookPlan

open Relation

section Relation

variable {α : Type _} {r : α → α → Prop} {a c : α}

/-- The element stands on a cycle, or a way leads from it to one. -/
def ReachesCycle (r : α → α → Prop) (a : α) : Prop :=
  ∃ c, ReflTransGen r a c ∧ TransGen r c c

theorem acc_of_reaches (h : Acc (Function.swap r) a) (hpath : ReflTransGen r a c) :
    Acc (Function.swap r) c := by
  induction hpath with
  | refl => exact h
  | tail _ hedge ih => exact ih.inv hedge

/-- Among the elements that can be reached and lead on, "comes behind on some way" is an order on a
finite set as long as none of them is on a cycle. -/
theorem acc_of_not_reachesCycle (hfinite : {x | ∃ y, r x y}.Finite) (h : ¬ ReachesCycle r a) :
    Acc (Function.swap r) a := by
  let Reached : Set α := {x | (∃ y, r x y) ∧ ReflTransGen r a x}
  have : Finite Reached := (hfinite.subset fun _ hx => hx.1).to_subtype
  let behind (x y : Reached) : Prop := TransGen r y x
  have : IsTrans Reached behind := ⟨fun _ _ _ hxy hyz => hyz.trans hxy⟩
  have : Std.Irrefl behind := ⟨fun x hx => h ⟨x, x.2.2, hx⟩⟩
  have hwf : WellFounded behind := Finite.wellFounded_of_trans_of_irrefl behind
  have hall : ∀ x : Reached, Acc (Function.swap r) x.1 := by
    intro x
    induction x using hwf.induction with
    | _ x ih =>
      refine Acc.intro _ fun y (hy : r x y) => ?_
      by_cases hon : ∃ z, r y z
      · exact ih ⟨y, hon, x.2.2.tail hy⟩ (.single hy)
      · exact Acc.intro _ fun z hz => absurd ⟨z, hz⟩ hon
  by_cases hon : ∃ y, r a y
  · exact hall ⟨a, hon, .refl⟩
  · exact Acc.intro _ fun y hy => absurd ⟨y, hy⟩ hon

theorem acc_iff_not_reachesCycle (hfinite : {x | ∃ y, r x y}.Finite) :
    Acc (Function.swap r) a ↔ ¬ ReachesCycle r a := by
  constructor
  · rintro h ⟨c, hpath, hcycle⟩
    exact not_transGen_self (acc_of_reaches h hpath) hcycle
  · exact acc_of_not_reachesCycle hfinite

end Relation

namespace Step

variable {steps : List Step} {id d : StepId}

/-- The name stands on a cycle of dependencies, or a way leads from it to one. -/
def LeadsToCycle (steps : List Step) (id : StepId) : Prop :=
  ∃ c, ReflTransGen (Needs steps) id c ∧ TransGen (Needs steps) c c

theorem LeadsToCycle.of_needs (h : Needs steps id d) (hd : LeadsToCycle steps d) :
    LeadsToCycle steps id := by
  obtain ⟨c, hpath, hcycle⟩ := hd
  exact ⟨c, .head h hpath, hcycle⟩

theorem founded_iff_not_leadsToCycle : Founded steps id ↔ ¬ LeadsToCycle steps id := by
  refine acc_iff_not_reachesCycle ((List.finite_toSet (steps.map (·.id))).subset ?_)
  rintro _ ⟨d, s, hs, rfl, -⟩
  exact List.mem_map_of_mem hs

end Step

end WorkbookPlan
