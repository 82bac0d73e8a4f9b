import Mathlib.Logic.Relation
import WorkbookPlan.Proofs.Draft.Tables

/-! The formula steps of a draft stand in the order of the calculation chain. Each waits for the
step that owned its field before, so all of them go back to the headers of their table. -/
namespace WorkbookPlan

open Relation Step

structure Step.SetsUp (name : String) (s : Step) : Prop where
  action : s.action = Action.createSheet ∨ s.action = Action.writeHeaders
  sheet : s.sheet? = some name

namespace Draft

variable {settings : Settings} {schema : Schema} {k m : Nat} {c : Computation}

def before (settings : Settings) (schema : Schema) (k : Nat) : Draft :=
  (schema.calculationChain.take k).foldl (withComputation settings schema) (sheetsOf schema)

def formulaAt (settings : Settings) (schema : Schema) (k : Nat) (c : Computation) : Step :=
  setFormula settings schema (before settings schema k).nextOrder c
    (computationDeps (before settings schema k).owners c)

/-- What comes behind the formulas: nothing of it makes a sheet or sets a formula or owns a field.
-/
structure Completes (d e : Draft) : Prop where
  owners : e.owners = d.owners
  steps : ∃ rest, e.steps = d.steps ++ rest ∧
    ∀ s ∈ rest, s.action = Action.addValidation ∨ s.action = Action.verifyResults

theorem Completes.refl (d : Draft) : Completes d d where
  owners := rfl
  steps := ⟨[], (List.append_nil _).symm, fun _ h => nomatch h⟩

theorem Completes.snoc {d e : Draft} (h : Completes d e) {s : Step}
    (hs : s.action = Action.addValidation ∨ s.action = Action.verifyResults) :
    Completes d { e with steps := e.steps ++ [s] } where
  owners := h.owners
  steps := by
    obtain ⟨rest, hsteps, hrest⟩ := h.steps
    refine ⟨rest ++ [s], ?_, fun x hx => ?_⟩
    · rw [← List.append_assoc, ← hsteps]
    · rcases List.mem_append.1 hx with hx | hx
      · exact hrest x hx
      · exact List.mem_singleton.1 hx ▸ hs

theorem Completes.withRule {d e : Draft} (h : Completes d e) (t : Table) (f : Field × Nat) :
    Completes d (withRule t e f) := by
  unfold Draft.withRule
  cases f.1.rule with
  | none => exact h
  | some rule => exact h.snoc (.inl rfl)

theorem Completes.withVerification {d e : Draft} (h : Completes d e) (settings : Settings) :
    Completes d (e.withVerification settings) := by
  unfold Draft.withVerification
  split
  · exact h
  · exact h.snoc (.inr rfl)

theorem completes_ofSchema (settings : Settings) (schema : Schema) :
    Completes (before settings schema schema.calculationChain.length)
      (ofSchema settings schema) := by
  have hrules := List.foldlRecOn (motive := Completes
      (schema.calculationChain.foldl (withComputation settings schema) (sheetsOf schema)))
    schema.orderedTables withRules (.refl _) fun _ hd t _ =>
      List.foldlRecOn t.fields.zipIdx (Draft.withRule t) hd fun _ hd f _ => hd.withRule t f
  rw [before, List.take_length]
  exact hrules.withVerification settings

section Chain

variable (settings)

theorem before_succ (hc : schema.calculationChain[k]? = some c) :
    before settings schema (k + 1) =
      (before settings schema k).withComputation settings schema c := by
  rw [before, List.take_add_one, hc, Option.toList_some, List.foldl_append]
  rfl

theorem before_succ_of_none (hc : schema.calculationChain[k]? = none) :
    before settings schema (k + 1) = before settings schema k := by
  rw [before, List.take_add_one, hc, Option.toList_none, List.append_nil]
  rfl

theorem steps_before_succ (hc : schema.calculationChain[k]? = some c) :
    (before settings schema (k + 1)).steps =
      (before settings schema k).steps ++ [formulaAt settings schema k c] := by
  rw [before_succ settings hc]
  rfl

theorem owners_before_succ (hc : schema.calculationChain[k]? = some c) :
    (before settings schema (k + 1)).owners =
      (before settings schema k).owners.register c.sheet c.field
        (formulaAt settings schema k c).id := by
  rw [before_succ settings hc]
  rfl

theorem steps_before_mono (h : k ≤ m) :
    (before settings schema k).steps <+: (before settings schema m).steps := by
  induction h with
  | refl => exact List.prefix_rfl
  | @step m _ ih =>
    cases hc : schema.calculationChain[m]? with
    | none => exact before_succ_of_none settings hc ▸ ih
    | some c =>
      rw [steps_before_succ settings hc]
      exact ih.trans (List.prefix_append _ _)

theorem steps_before_ofSchema (hk : k ≤ schema.calculationChain.length) :
    (before settings schema k).steps <+: (ofSchema settings schema).steps := by
  obtain ⟨rest, hsteps, -⟩ := (completes_ofSchema settings schema).steps
  rw [hsteps]
  exact (steps_before_mono settings hk).trans (List.prefix_append _ _)

theorem sheetsOf_subset : (sheetsOf schema).steps ⊆ (ofSchema settings schema).steps :=
  (steps_before_ofSchema settings (k := 0) (Nat.zero_le _)).subset

theorem formulaAt_mem (hc : schema.calculationChain[k]? = some c) :
    formulaAt settings schema k c ∈ (ofSchema settings schema).steps := by
  have hlt := (List.getElem?_eq_some_iff.1 hc).1
  refine (steps_before_ofSchema settings (k := k + 1) hlt).subset ?_
  rw [steps_before_succ settings hc]
  exact List.mem_append_right _ (List.mem_singleton_self _)

theorem action_sheetsOf {s : Step} (hs : s ∈ (sheetsOf schema).steps) :
    s.action = Action.createSheet ∨ s.action = Action.writeHeaders := by
  obtain ⟨t, ht, hsheet⟩ := (structured_sheetsOf schema).sheets s hs
  obtain ⟨create, headers, hbuilt⟩ := (structured_sheetsOf schema).built t ht
  rcases hbuilt.only s hs hsheet with rfl | rfl
  · exact .inl hbuilt.action_create
  · exact .inr hbuilt.action_headers

variable {settings}

theorem exists_of_mem_before {s : Step} (hs : s ∈ (before settings schema k).steps) :
    s ∈ (sheetsOf schema).steps ∨
      ∃ m c, schema.calculationChain[m]? = some c ∧ s = formulaAt settings schema m c := by
  induction k with
  | zero => exact .inl hs
  | succ k ih =>
    cases hc : schema.calculationChain[k]? with
    | none => exact ih (before_succ_of_none settings hc ▸ hs)
    | some c =>
      rw [steps_before_succ settings hc] at hs
      rcases List.mem_append.1 hs with hs | hs
      · exact ih hs
      · exact .inr ⟨k, c, hc, List.mem_singleton.1 hs⟩

/-- Only the first part makes sheets and writes headers. -/
theorem mem_sheetsOf {s : Step} (hs : s ∈ (ofSchema settings schema).steps)
    (haction : s.action = Action.createSheet ∨ s.action = Action.writeHeaders) :
    s ∈ (sheetsOf schema).steps := by
  obtain ⟨rest, hsteps, hrest⟩ := (completes_ofSchema settings schema).steps
  rw [hsteps] at hs
  rcases List.mem_append.1 hs with hs | hs
  · rcases exists_of_mem_before hs with hsheets | ⟨k, c, -, rfl⟩
    · exact hsheets
    · exact absurd haction (by decide : ¬ (Action.setFormula = Action.createSheet ∨
        Action.setFormula = Action.writeHeaders))
  · rcases hrest s hs with hlast | hlast <;>
      · rw [hlast] at haction
        exact absurd haction (by decide)

theorem formulaSteps_sheetsOf (schema : Schema) : (sheetsOf schema).formulaSteps = [] := by
  refine List.filter_eq_nil_iff.2 fun s hs => ?_
  rcases action_sheetsOf hs with h | h <;>
    · rw [h]
      decide

variable (settings)

theorem formulaSteps_before_succ (hc : schema.calculationChain[k]? = some c) :
    (before settings schema (k + 1)).formulaSteps =
      (before settings schema k).formulaSteps ++ [formulaAt settings schema k c] := by
  rw [formulaSteps, steps_before_succ settings hc, List.filter_append]
  rfl

theorem length_formulaSteps_before (hk : k ≤ schema.calculationChain.length) :
    (before settings schema k).formulaSteps.length = k := by
  induction k with
  | zero => exact congrArg List.length (formulaSteps_sheetsOf schema)
  | succ k ih =>
    obtain ⟨c, hc⟩ : ∃ c, schema.calculationChain[k]? = some c :=
      ⟨_, List.getElem?_eq_getElem hk⟩
    rw [formulaSteps_before_succ settings hc, List.length_append, ih (Nat.le_of_succ_le hk)]
    rfl

/-- The formula steps stand in the order of the calculation chain. -/
theorem getElem?_formulaSteps (hc : schema.calculationChain[k]? = some c) :
    (ofSchema settings schema).formulaSteps[k]? = some (formulaAt settings schema k c) := by
  have hlt := (List.getElem?_eq_some_iff.1 hc).1
  have hlength := length_formulaSteps_before settings (Nat.le_of_lt hlt)
  have hbefore := (steps_before_ofSchema settings (k := k + 1) hlt).filter
    (·.action == Action.setFormula)
  obtain ⟨rest, hrest⟩ := hbefore
  have hsucc := formulaSteps_before_succ settings hc
  rw [formulaSteps] at hsucc
  rw [formulaSteps, ← hrest, hsucc, List.append_assoc,
    List.getElem?_append_right (Nat.le_of_eq hlength), hlength, Nat.sub_self]
  rfl

end Chain

section Owners

variable {t f : String}

theorem owner?_foldl_withComputation (d : Draft) {chain : List Computation}
    (h : ∀ c ∈ chain, (t, f) ≠ (c.sheet, c.field)) :
    (chain.foldl (withComputation settings schema) d).owners.owner? t f =
      d.owners.owner? t f := by
  induction chain generalizing d with
  | nil => rfl
  | cons c chain ih =>
    rw [List.foldl_cons, ih _ fun c hc => h c (List.mem_cons_of_mem _ hc)]
    exact Owners.owner?_register_of_ne (h c List.mem_cons_self) _ _

/-- A field has the same owner from the entry at a place on, if it is not computed there or later. -/
theorem owner?_ofSchema (h : ∀ c ∈ schema.calculationChain.drop k, (t, f) ≠ (c.sheet, c.field)) :
    (ofSchema settings schema).owners.owner? t f =
      (before settings schema k).owners.owner? t f := by
  have hsplit : before settings schema schema.calculationChain.length =
      (schema.calculationChain.drop k).foldl (withComputation settings schema)
        (before settings schema k) := by
    rw [before, before, ← List.foldl_append, List.take_append_drop, List.take_length]
  rw [(completes_ofSchema settings schema).owners, hsplit, owner?_foldl_withComputation _ h]

/-- Whoever owns a field later goes back to its owner. -/
theorem reaches_owner (settings : Settings) {first : StepId}
    (hfirst : (before settings schema k).owners.owner? t f = some first) (hk : k ≤ m) :
    ∃ id, (before settings schema m).owners.owner? t f = some id ∧
      ReflTransGen (Needs (ofSchema settings schema).steps) id first := by
  induction hk with
  | refl => exact ⟨first, hfirst, .refl⟩
  | @step m _ ih =>
    obtain ⟨id, howner, hpath⟩ := ih
    cases hc : schema.calculationChain[m]? with
    | none => exact ⟨id, by rw [before_succ_of_none settings hc, howner], hpath⟩
    | some c =>
      rw [owners_before_succ settings hc]
      by_cases htarget : (t, f) = (c.sheet, c.field)
      · obtain ⟨rfl, rfl⟩ := Prod.mk.inj htarget
        have hwaits : id ∈ (formulaAt settings schema m c).dependsOn :=
          mem_computationDeps.2 (.inr howner)
        exact ⟨_, Owners.owner?_register_self _ _ _ _,
          .head ⟨_, formulaAt_mem settings hc, rfl, hwaits⟩ hpath⟩
      · exact ⟨id, by rw [Owners.owner?_register_of_ne htarget, howner], hpath⟩

/-- At each place of the calculation chain a field of a table has an owner, which goes back to the
sheet and to the headers of the table. -/
theorem exists_owner (settings : Settings) {table : Table} (ht : table ∈ schema.orderedTables)
    (hf : f ∈ table.fieldNames) (k : Nat) :
    ∃ id, (before settings schema k).owners.owner? table.name f = some id ∧
      ∀ s ∈ (ofSchema settings schema).steps, s.SetsUp table.name →
        ReflTransGen (Needs (ofSchema settings schema).steps) id s.id := by
  obtain ⟨create, headers, hbuilt⟩ := (structured_sheetsOf schema).built table ht
  obtain ⟨id, howner, hpath⟩ :=
    reaches_owner settings (k := 0) (hbuilt.owns f hf) (Nat.zero_le k)
  refine ⟨id, howner, fun s hs hset => ?_⟩
  rcases hbuilt.only s (mem_sheetsOf hs hset.action) hset.sheet with rfl | rfl
  · have hmem := sheetsOf_subset settings hbuilt.mem_headers
    exact hpath.tail ⟨headers, hmem, rfl, hbuilt.waits⟩
  · exact hpath

/-- A formula of a declared field goes back to the sheet and to the headers of its table. -/
theorem reaches_sheet (settings : Settings) (hc : schema.calculationChain[k]? = some c)
    (hfield : (schema.field? c.sheet c.field).isSome) :
    let steps := (ofSchema settings schema).steps
    (∃ s ∈ steps, s.action = Action.createSheet ∧ s.sheet? = some c.sheet) ∧
      (∃ s ∈ steps, s.action = Action.writeHeaders ∧ s.sheet? = some c.sheet) ∧
      ∀ s ∈ steps, s.SetsUp c.sheet →
        TransGen (Needs steps) (formulaAt settings schema k c).id s.id := by
  intro steps
  obtain ⟨t, ht, hmem⟩ := Schema.isSome_field?_iff.1 hfield
  have hname : t.name = c.sheet := Schema.name_of_table? ht
  have hordered : t ∈ schema.orderedTables := Schema.mem_orderedTables.2 (hname ▸ ht)
  obtain ⟨create, headers, hbuilt⟩ := (structured_sheetsOf schema).built t hordered
  have hsheets : (sheetsOf schema).steps ⊆ steps := sheetsOf_subset settings
  refine ⟨⟨create, hsheets hbuilt.mem_create, hbuilt.action_create, hname ▸ hbuilt.sheet_create⟩,
    ⟨headers, hsheets hbuilt.mem_headers, hbuilt.action_headers, hname ▸ hbuilt.sheet_headers⟩,
    fun s hs hset => ?_⟩
  obtain ⟨id, howner, hpath⟩ := exists_owner settings hordered hmem k
  rw [hname] at howner
  have hneeds : Needs steps (formulaAt settings schema k c).id id :=
    ⟨_, formulaAt_mem settings hc, rfl, mem_computationDeps.2 (.inr howner)⟩
  exact .head' hneeds (hpath s hs (hname ▸ hset))

end Owners

end Draft

end WorkbookPlan
