import Mathlib.Data.List.Nodup
import WorkbookPlan.Draft.Basic
import WorkbookPlan.Proofs.Step.Founded
import WorkbookPlan.Proofs.Text.Digits

/-! A draft is built from its first step to its last. Its owners are steps that stand in it already, so
a new step can wait for none but steps before it, and its number makes its name a new one. -/
namespace WorkbookPlan

/-- The pending step can stand behind others: its number, which also begins its name, is the next one,
and it waits for some of them, for none twice. -/
structure Step.Continues (before : List Step) (s : Step) : Prop where
  order : s.order = before.length + 1
  id : ∃ rest, s.id.toList = 's' :: (Nat.toDigits 10 s.order ++ '_' :: rest)
  nodup : s.dependsOn.Nodup
  known : ∀ d ∈ s.dependsOn, d ∈ before.map (·.id)
  pending : s.status = .pending

inductive Ordered : List Step → Prop where
  | nil : Ordered []
  | snoc {steps s} : Ordered steps → s.Continues steps → Ordered (steps ++ [s])

def Owners.Within (o : Owners) (ids : List StepId) : Prop :=
  ∀ table, ∀ e ∈ o.fieldsOf table, e.2 ∈ ids

structure Draft.Sound (d : Draft) : Prop where
  ordered : Ordered d.steps
  owned : d.owners.Within (d.steps.map (·.id))

namespace Ordered

variable {steps : List Step} {s : Step}

/-- Each step of such a list continues those before it. -/
theorem continues (h : Ordered steps) {i : Nat} (hs : steps[i]? = some s) :
    s.Continues (steps.take i) := by
  induction h with
  | nil => simp at hs
  | @snoc before last _ hlast ih =>
    rcases Nat.lt_trichotomy i before.length with hlt | rfl | hgt
    · rw [List.getElem?_append_left hlt] at hs
      rw [List.take_append_of_le_length (Nat.le_of_lt hlt)]
      exact ih hs
    · rw [List.getElem?_concat_length] at hs
      rw [List.take_left]
      exact Option.some.inj hs ▸ hlast
    · have hnone : (before ++ [last])[i]? = none := by
        rw [List.getElem?_eq_none_iff, List.length_append, List.length_singleton]
        omega
      rw [hnone] at hs
      cases hs

theorem exists_continues (h : Ordered steps) (hs : s ∈ steps) : ∃ earlier, s.Continues earlier := by
  obtain ⟨i, hi⟩ := List.mem_iff_getElem?.1 hs
  exact ⟨_, h.continues hi⟩

theorem order_eq (h : Ordered steps) {i : Nat} (hs : steps[i]? = some s) : s.order = i + 1 := by
  have hlt := (List.getElem?_eq_some_iff.1 hs).1
  rw [(h.continues hs).order, List.length_take, Nat.min_eq_left (Nat.le_of_lt hlt)]

theorem earlier (h : Ordered steps) {i : Nat} (hs : steps[i]? = some s) :
    ∀ d ∈ s.dependsOn, ∃ j t, j < i ∧ steps[j]? = some t ∧ t.id = d := by
  intro d hd
  obtain ⟨t, ht, hid⟩ := List.mem_map.1 ((h.continues hs).known d hd)
  obtain ⟨j, hj⟩ := List.mem_iff_getElem?.1 ht
  rw [List.getElem?_take] at hj
  split at hj
  · next hlt => exact ⟨j, t, hlt, hj, hid⟩
  · cases hj

/-- The number of a step can be read off its name. -/
theorem nodup_ids (h : Ordered steps) : (steps.map (·.id)).Nodup := by
  rw [List.nodup_iff_getElem?_ne_getElem?]
  intro i j hij hj hsame
  rw [List.length_map] at hj
  have hi : i < steps.length := Nat.lt_trans hij hj
  obtain ⟨s, hs⟩ : ∃ s, steps[i]? = some s := ⟨_, List.getElem?_eq_getElem hi⟩
  obtain ⟨t, ht⟩ : ∃ t, steps[j]? = some t := ⟨_, List.getElem?_eq_getElem hj⟩
  have hid : s.id = t.id := by
    simpa only [List.getElem?_map, hs, ht, Option.map_some, Option.some.injEq] using hsame
  obtain ⟨a, ha⟩ := (h.continues hs).id
  obtain ⟨b, hb⟩ := (h.continues ht).id
  have hchars := ha.symm.trans ((congrArg String.toList hid).trans hb)
  have horder : s.order = t.order := Text.eq_of_digits_append (List.cons.inj hchars).2
  rw [h.order_eq hs, h.order_eq ht] at horder
  omega

end Ordered

theorem nodup_toList {α : Type _} (x : Option α) : x.toList.Nodup := by
  cases x with
  | none => exact List.nodup_nil
  | some a => exact List.nodup_singleton a

namespace Owners

variable {o : Owners} {ids : List StepId} {id : StepId}

theorem Within.mono {more : List StepId} (ho : o.Within ids) (h : ids ⊆ more) : o.Within more :=
  fun table e he => h (ho table e he)

theorem Within.register (ho : o.Within ids) (table field : String) (hid : id ∈ ids) :
    (o.register table field id).Within ids := by
  intro t e he
  by_cases ht : t = table
  · rw [ht, fieldsOf_register_self] at he
    rcases Assoc.mem_put he with rfl | hold
    · exact hid
    · exact ho table e hold
  · rw [fieldsOf_register_of_ne ht] at he
    exact ho t e he

theorem Within.registerAll (ho : o.Within ids) (table : String) (hid : id ∈ ids)
    (fields : List Field) :
    (fields.foldl (fun o f => o.register table f.name id) o).Within ids := by
  induction fields generalizing o with
  | nil => exact ho
  | cons f fields ih => exact ih (ho.register table f.name hid)

theorem Within.owner? (ho : o.Within ids) {table field : String}
    (h : o.owner? table field = some id) : id ∈ ids :=
  ho table _ (Assoc.mem_of_lookup h)

theorem Within.anyOf? (ho : o.Within ids) {table : String} (h : o.anyOf? table = some id) :
    id ∈ ids := by
  obtain ⟨e, he, rfl⟩ := Option.map_eq_some_iff.1 h
  exact ho table e (List.mem_of_head? he)

theorem Within.ofToken? (ho : o.Within ids) {token : String} (h : o.ofToken? token = some id) :
    id ∈ ids := by
  obtain ⟨target, -, howner⟩ := Option.bind_eq_some_iff.1 h
  exact ho.owner? howner

theorem Within.ofTables (ho : o.Within ids) (tables : List String) :
    ∀ d ∈ o.ofTables tables, d ∈ ids := by
  intro d hd
  obtain ⟨table, -, htable⟩ := List.mem_filterMap.1 (List.mem_eraseDups.1 hd)
  exact ho.anyOf? htable

theorem Within.ofTokens (ho : o.Within ids) (tokens : List String) :
    ∀ d ∈ o.ofTokens tokens, d ∈ ids := by
  intro d hd
  obtain ⟨token, -, htoken⟩ := List.mem_filterMap.1 (List.mem_eraseDups.1 hd)
  exact ho.ofToken? htoken

end Owners

namespace Draft

variable {d : Draft} {s : Step}

theorem toList_stepId (order : Nat) (action sheet : String) (field : Option String) :
    ∃ rest, (stepId order action sheet field).toList =
      's' :: (Nat.toDigits 10 order ++ '_' :: rest) := by
  cases field with
  | none => exact ⟨action.toList ++ '_' :: (idPart sheet).toList, by simp [stepId]⟩
  | some f =>
    exact ⟨action.toList ++ '_' :: ((idPart sheet).toList ++ '_' :: (idPart f).toList),
      by simp [stepId]⟩

theorem Sound.snoc (hd : d.Sound) (hs : s.Continues d.steps) :
    ({ d with steps := d.steps ++ [s] } : Draft).Sound where
  ordered := hd.ordered.snoc hs
  owned := by
    refine hd.owned.mono ?_
    rw [List.map_append]
    exact List.subset_append_left _ _

theorem Sound.register (hd : d.Sound) (table field : String) (hs : s ∈ d.steps) :
    ({ d with owners := d.owners.register table field s.id } : Draft).Sound where
  ordered := hd.ordered
  owned := hd.owned.register table field (List.mem_map_of_mem hs)

def creation (d : Draft) (t : Table) : Step :=
  createSheet d.nextOrder t (d.owners.ofTables t.dependsOn)

def heading (d : Draft) (t : Table) : Step :=
  writeHeaders (d.nextOrder + 1) t [(d.creation t).id]

theorem steps_withTable (d : Draft) (t : Table) :
    (d.withTable t).steps = d.steps ++ [d.creation t] ++ [d.heading t] :=
  (List.append_assoc d.steps [d.creation t] [d.heading t]).symm

theorem owners_withTable (d : Draft) (t : Table) : (d.withTable t).owners =
    t.fields.foldl (fun o f => o.register t.name f.name (d.heading t).id) d.owners :=
  rfl

theorem Sound.withTable (hd : d.Sound) (t : Table) : (d.withTable t).Sound := by
  have hcreation : (d.creation t).Continues d.steps :=
    ⟨rfl, toList_stepId _ _ _ _, nodup_eraseDups _, hd.owned.ofTables t.dependsOn, rfl⟩
  have hheading : (d.heading t).Continues (d.steps ++ [d.creation t]) := by
    refine ⟨?_, toList_stepId _ _ _ _, List.nodup_singleton _, ?_, rfl⟩
    · simp [heading, writeHeaders, nextOrder]
    · simp [heading, writeHeaders]
  have hsteps := (hd.snoc hcreation).snoc hheading
  constructor
  · rw [steps_withTable]
    exact hsteps.ordered
  · rw [steps_withTable, owners_withTable]
    exact hsteps.owned.registerAll t.name (List.mem_map_of_mem (by simp)) t.fields

theorem computationDeps_eq (o : Owners) (c : Computation) :
    computationDeps o c = o.ofTokens c.dependencies ++
      ((o.owner? c.sheet c.field).toList.filter (· ∉ o.ofTokens c.dependencies)) := by
  unfold computationDeps
  cases o.owner? c.sheet c.field with
  | none => simp
  | some id => by_cases hid : id ∈ o.ofTokens c.dependencies <;> simp [hid]

theorem mem_computationDeps {o : Owners} {c : Computation} {id : StepId} :
    id ∈ computationDeps o c ↔
      id ∈ o.ofTokens c.dependencies ∨ o.owner? c.sheet c.field = some id := by
  rw [computationDeps_eq, List.mem_append, List.mem_filter, Option.mem_toList]
  by_cases hid : id ∈ o.ofTokens c.dependencies <;> simp [hid]

theorem nodup_computationDeps (o : Owners) (c : Computation) : (computationDeps o c).Nodup := by
  rw [computationDeps_eq]
  refine List.nodup_append.2 ⟨nodup_eraseDups _, (nodup_toList _).filter _, fun x hx y hy => ?_⟩
  have hnew : y ∉ o.ofTokens c.dependencies := by simpa using (List.mem_filter.1 hy).2
  exact fun h => hnew (h ▸ hx)

theorem Sound.withComputation (hd : d.Sound) (settings : Settings) (schema : Schema)
    (c : Computation) : (d.withComputation settings schema c).Sound := by
  have hknown : ∀ id ∈ computationDeps d.owners c, id ∈ d.steps.map (·.id) := by
    intro id hid
    rcases mem_computationDeps.1 hid with htokens | howner
    · exact hd.owned.ofTokens c.dependencies id htokens
    · exact hd.owned.owner? howner
  have hs : (setFormula settings schema d.nextOrder c
      (computationDeps d.owners c)).Continues d.steps :=
    ⟨rfl, toList_stepId _ _ _ _, nodup_computationDeps _ _, hknown, rfl⟩
  exact (hd.snoc hs).register c.sheet c.field (by simp)

theorem Sound.withRule (hd : d.Sound) (t : Table) (f : Field × Nat) : (withRule t d f).Sound := by
  unfold Draft.withRule
  cases f.1.rule with
  | none => exact hd
  | some rule =>
    exact hd.snoc ⟨rfl, toList_stepId _ _ _ _, nodup_toList _, fun id hid =>
      hd.owned.owner? (Option.mem_toList.1 hid), rfl⟩

theorem Sound.withVerification (hd : d.Sound) (settings : Settings) :
    (d.withVerification settings).Sound := by
  unfold Draft.withVerification
  split
  · exact hd
  · refine hd.snoc ⟨rfl, toList_stepId _ _ _ _, ?_, fun id hid => ?_, rfl⟩
    · exact hd.ordered.nodup_ids.sublist (List.filter_sublist.map _)
    · exact (List.filter_sublist.map _).subset hid

theorem sound_ofSchema (settings : Settings) (schema : Schema) :
    (ofSchema settings schema).Sound := by
  have hempty : ({ tables := schema.orderedTables.map (·.name) } : Draft).Sound :=
    ⟨.nil, fun _ _ h => nomatch h⟩
  have htables := List.foldlRecOn schema.orderedTables withTable hempty
    fun _ hd t _ => hd.withTable t
  have hchain := List.foldlRecOn schema.calculationChain (Draft.withComputation settings schema)
    htables fun _ hd c _ => hd.withComputation settings schema c
  have hrules := List.foldlRecOn schema.orderedTables withRules hchain fun _ hd t _ =>
    List.foldlRecOn t.fields.zipIdx (Draft.withRule t) hd fun _ hd f _ => hd.withRule t f
  exact hrules.withVerification settings

/-- The steps of a draft are numbered in turn, their names differ, and each waits for earlier steps
only. -/
theorem ofSchema_ordered (settings : Settings) (schema : Schema) :
    let steps := (ofSchema settings schema).steps
    (∀ i s, steps[i]? = some s → s.order = i + 1 ∧ s.dependsOn.Nodup ∧
      ∀ d ∈ s.dependsOn, ∃ j t, j < i ∧ steps[j]? = some t ∧ t.id = d) ∧
    (steps.map (·.id)).Nodup ∧ StructureReport.ofSteps steps = {} := by
  intro steps
  have hordered : Ordered steps := (sound_ofSchema settings schema).ordered
  have hnodup := hordered.nodup_ids
  refine ⟨fun i s hs => ?_, hnodup, ?_⟩
  · exact ⟨hordered.order_eq hs, (hordered.continues hs).nodup, hordered.earlier hs⟩
  · exact StructureReport.ofSteps_eq_empty_of_earlier hnodup fun i s hs => hordered.earlier hs

end Draft

end WorkbookPlan
