import WorkbookPlan.Proofs.Draft.Ownership
import WorkbookPlan.Proofs.Draft.Writes

/-! The parts of a draft: the sheets table by table, the formulas in the order of the calculation
chain, the rules field by field, and one verification of all formulas. Nothing is left out and nothing
is there twice. -/
namespace WorkbookPlan

open Sheet

namespace Step

variable {s : Step}

structure Creates (name : String) (s : Step) : Prop where
  action : s.action = Action.createSheet
  sheet : s.sheet? = some name

structure Heads (t : Table) (s : Step) : Prop where
  action : s.action = Action.writeHeaders
  sheet : s.sheet? = some t.name
  headers : s.parameters.get? "headers" = some (.strings t.fieldNames)

/-- The step sets the formula of the entry, in the column of its field. -/
structure Computes (schema : Schema) (c : Computation) (s : Step) : Prop where
  action : s.action = Action.setFormula
  sheet : s.sheet? = some c.sheet
  field : s.param? "field" = some c.field
  column : s.param? "column" = schema.columnOf? c.sheet c.field
  formula : s.param? "originalFormula" = some c.formula

/-- The step adds the rule to the column of its field. -/
structure Restricts (x : RuleSite) (s : Step) : Prop where
  action : s.action = Action.addValidation
  sheet : s.sheet? = some x.table.name
  field : s.param? "field" = some x.field.name
  column : s.param? "column" = some (Column.name x.place)

/-- The step waits for the formulas and looks at their columns, each on its sheet. -/
structure Verifies (schema : Schema) (formulas : List Step) (s : Step) : Prop where
  action : s.action = Action.verifyResults
  dependsOn : s.dependsOn = formulas.map (·.id)
  checks : s.parameters.get? "checks" = some (.arr (schema.calculationChain.map fun c =>
    .object [("sheet", .str c.sheet),
      ("column", ((schema.columnOf? c.sheet c.field).map .str).getD .null)]))

end Step

/-- What is made of each member with its place is related to the members, one to one. -/
theorem forall₂_map_zipIdx {α β : Type _} {R : α → β → Prop} {xs : List α} {n : Nat}
    {f : α × Nat → β} (h : ∀ x ∈ xs.zipIdx n, R x.1 (f x)) :
    List.Forall₂ R xs ((xs.zipIdx n).map f) := by
  have hsame : List.Forall₂ R ((xs.zipIdx n).map Prod.fst) ((xs.zipIdx n).map f) := by
    rw [List.forall₂_map_left_iff, List.forall₂_map_right_iff, List.forall₂_same]
    exact h
  rwa [List.zipIdx_map_fst] at hsame

namespace Draft

variable {settings : Settings} {schema : Schema} {d : Draft} {t : Table} {c : Computation}

theorem creates_creation (d : Draft) (t : Table) : (d.creation t).Creates t.name where
  action := rfl
  sheet := sheet?_creation d t

theorem heads_heading (d : Draft) (t : Table) : (d.heading t).Heads t where
  action := rfl
  sheet := sheet?_heading d t
  headers := by simp [heading, writeHeaders, Json.get?_object]

theorem computes_formulaAt (settings : Settings) (schema : Schema) (k : Nat) (c : Computation) :
    (formulaAt settings schema k c).Computes schema c where
  action := rfl
  sheet := sheet?_formulaAt settings schema k c
  field := by
    simp [formulaAt, setFormula, Step.param?, Json.textAt?, Json.get?_object, List.lookup_cons,
      Json.str?]
  column := (param?_formulaAt settings schema k c).2.2
  formula := by
    simp [formulaAt, setFormula, Step.param?, Json.textAt?, Json.get?_object, List.lookup_cons,
      Json.str?]

theorem restricts_ruleStep (o : Owners) (x : RuleSite) (order : Nat) :
    (ruleStep o x order).Restricts x where
  action := rfl
  sheet := (param?_ruleStep o x order).1
  field := by
    simp [ruleStep, addValidation, Step.param?, Json.textAt?, Json.get?_object, List.lookup_cons,
      Json.str?]
  column := (param?_ruleStep o x order).2.2

/-- The sheet of each table is made. -/
theorem exists_creates (settings : Settings) (ht : t ∈ schema.tables) :
    ∃ s ∈ (ofSchema settings schema).steps, s.Creates t.name := by
  cases hfound : schema.table? t.name with
  | none => exact absurd (List.mem_map_of_mem ht) (Schema.table?_eq_none_iff.1 hfound)
  | some u =>
    have hname := Schema.name_of_table? hfound
    obtain ⟨create, headers, hbuilt⟩ :=
      (structured_sheetsOf schema).built u (Schema.mem_orderedTables.2 (hname ▸ hfound))
    exact ⟨create, sheetsOf_subset settings hbuilt.mem_create, hbuilt.action_create,
      hname ▸ hbuilt.sheet_create⟩

/-- Of the steps that set up a sheet there is one for each of the two actions. -/
theorem eq_of_setsUp {u v : Step} {name : String} (hu : u ∈ (ofSchema settings schema).steps)
    (hv : v ∈ (ofSchema settings schema).steps) (husets : u.SetsUp name) (hvsets : v.SetsUp name)
    (haction : u.action = v.action) : u = v := by
  have humem := mem_sheetsOf hu husets.action
  have hvmem := mem_sheetsOf hv hvsets.action
  obtain ⟨t, ht, hsheet⟩ := (structured_sheetsOf schema).sheets u humem
  obtain rfl : name = t.name := Option.some.inj (husets.sheet.symm.trans hsheet)
  obtain ⟨create, headers, hbuilt⟩ := (structured_sheetsOf schema).built t ht
  have hdiffer : create.action ≠ headers.action := by
    rw [hbuilt.action_create, hbuilt.action_headers]
    decide
  rcases hbuilt.only u humem husets.sheet with rfl | rfl <;>
    rcases hbuilt.only v hvmem hvsets.sheet with rfl | rfl
  · rfl
  · exact absurd haction hdiffer
  · exact absurd haction.symm hdiffer
  · rfl

theorem eq_of_creates {u v : Step} {name : String} (hu : u ∈ (ofSchema settings schema).steps)
    (hv : v ∈ (ofSchema settings schema).steps) (hucreates : u.Creates name)
    (hvcreates : v.Creates name) : u = v :=
  eq_of_setsUp hu hv ⟨.inl hucreates.action, hucreates.sheet⟩
    ⟨.inl hvcreates.action, hvcreates.sheet⟩ (hucreates.action.trans hvcreates.action.symm)

/-- Each table adds the step that makes its sheet and the one that writes its headers. -/
theorem exists_steps_withTables (d : Draft) (tables : List Table) :
    ∃ sheets : List (Step × Step),
      (tables.foldl withTable d).steps = d.steps ++ sheets.flatMap (fun p => [p.1, p.2]) ∧
      List.Forall₂ (fun t p => p.1.Creates t.name ∧ p.2.Heads t) tables sheets := by
  induction tables generalizing d with
  | nil => exact ⟨[], (List.append_nil _).symm, .nil⟩
  | cons t tables ih =>
    obtain ⟨sheets, hsteps, hsheets⟩ := ih (d.withTable t)
    refine ⟨(d.creation t, d.heading t) :: sheets, ?_,
      .cons ⟨creates_creation d t, heads_heading d t⟩ hsheets⟩
    rw [List.foldl_cons, hsteps, steps_withTable]
    simp

theorem steps_before (settings : Settings) (schema : Schema) (k : Nat) :
    (before settings schema k).steps =
      (sheetsOf schema).steps ++ (before settings schema k).formulaSteps := by
  induction k with
  | zero =>
    have hnone : (before settings schema 0).formulaSteps = [] := formulaSteps_sheetsOf schema
    rw [hnone, List.append_nil]
    rfl
  | succ k ih =>
    cases hc : schema.calculationChain[k]? with
    | none => rw [before_succ_of_none settings hc, ih]
    | some c =>
      rw [steps_before_succ settings hc, formulaSteps_before_succ settings hc, ih,
        List.append_assoc]

/-- The formula steps, one for each entry of the calculation chain. -/
theorem formulaSteps_eq (settings : Settings) (schema : Schema) :
    (ofSchema settings schema).formulaSteps =
      schema.calculationChain.zipIdx.map fun x => formulaAt settings schema x.2 x.1 := by
  have hlength : (ofSchema settings schema).formulaSteps.length =
      schema.calculationChain.length := by
    rw [formulaSteps_ofSchema, length_formulaSteps_before settings (Nat.le_refl _)]
  refine List.ext_getElem? fun k => ?_
  rw [List.getElem?_map, List.getElem?_zipIdx, Nat.zero_add]
  cases hc : schema.calculationChain[k]? with
  | none =>
    have hle := List.getElem?_eq_none_iff.1 hc
    exact List.getElem?_eq_none_iff.2 (hlength ▸ hle)
  | some c => exact getElem?_formulaSteps settings hc

theorem formulaSteps_withSites (d : Draft) (sites : List RuleSite) :
    (sites.foldl withSite d).formulaSteps = d.formulaSteps := by
  have hnone : ((sites.zipIdx d.nextOrder).map fun x => ruleStep d.owners x.1 x.2).filter
      (·.action == Action.setFormula) = [] := by
    refine List.filter_eq_nil_iff.2 fun s hs => ?_
    obtain ⟨x, -, rfl⟩ := List.mem_map.1 hs
    exact (by decide : ¬ (Action.addValidation == Action.setFormula) = true)
  rw [formulaSteps, steps_foldl_withSite, List.filter_append, hnone, List.append_nil, formulaSteps]

/-- What can be told of a formula step from its entry alone. -/
theorem map_formulaSteps {α : Type _} {f : Step → α} {g : Computation → α}
    (h : ∀ k c, f (formulaAt settings schema k c) = g c) :
    (ofSchema settings schema).formulaSteps.map f = schema.calculationChain.map g := by
  rw [formulaSteps_eq, List.map_map]
  conv_rhs => rw [← List.zipIdx_map_fst 0 schema.calculationChain, List.map_map]
  exact List.map_congr_left fun x _ => h x.2 x.1

theorem columnCheck_formulaAt (settings : Settings) (schema : Schema) (k : Nat) (c : Computation) :
    columnCheck (formulaAt settings schema k c) = .object [("sheet", .str c.sheet),
      ("column", ((schema.columnOf? c.sheet c.field).map .str).getD .null)] := by
  obtain ⟨hsheet, -, hcolumn⟩ := param?_formulaAt settings schema k c
  rw [columnCheck, hsheet, hcolumn]
  rfl

theorem verifies_verifyResults (settings : Settings) (schema : Schema) (order : Nat) :
    (verifyResults settings order (ofSchema settings schema).formulaSteps).Verifies schema
      (ofSchema settings schema).formulaSteps where
  action := rfl
  dependsOn := rfl
  checks := by
    have hchecks := map_formulaSteps (columnCheck_formulaAt settings schema)
    rw [← hchecks]
    simp [verifyResults, Json.get?_object, List.lookup_cons]

theorem tables_foldl {α : Type _} {f : Draft → α → Draft} (hf : ∀ d a, (f d a).tables = d.tables)
    (xs : List α) (d : Draft) : (xs.foldl f d).tables = d.tables :=
  List.foldlRecOn (motive := fun e : Draft => e.tables = d.tables) xs f rfl
    fun e he a _ => (hf e a).trans he

theorem tables_withVerification (settings : Settings) (d : Draft) :
    (d.withVerification settings).tables = d.tables := by
  unfold withVerification
  split <;> rfl

theorem tables_ofSchema (settings : Settings) (schema : Schema) :
    (ofSchema settings schema).tables = schema.orderedTables.map (·.name) := by
  rw [ofSchema_eq, tables_withVerification, tables_foldl (f := withSite) fun _ _ => rfl, before,
    tables_foldl (f := withComputation settings schema) fun _ _ => rfl, sheetsOf,
    tables_foldl (f := withTable) fun _ _ => rfl]

theorem mem_tables_ofSchema {name : String} :
    name ∈ (ofSchema settings schema).tables ↔ name ∈ schema.tables.map (·.name) := by
  rw [tables_ofSchema, schema.map_name_orderedTables, List.mem_append, List.mem_eraseDups,
    List.mem_eraseDups, List.mem_filter, List.mem_filter]
  simp only [decide_eq_true_eq]
  tauto

/-- The parts of a draft, the last of them with the verification if there are formulas. -/
theorem exists_steps_eq (settings : Settings) (schema : Schema) :
    let d := ofSchema settings schema
    ∃ order, d.steps = (sheetsOf schema).steps ++ d.formulaSteps ++ ruleSteps settings schema ++
      if d.formulaSteps = [] then [] else [verifyResults settings order d.formulaSteps] := by
  intro d
  let ruled := schema.sites.foldl withSite
    (before settings schema schema.calculationChain.length)
  have hformulas : ruled.formulaSteps = d.formulaSteps := by
    rw [formulaSteps_withSites, ← formulaSteps_ofSchema]
  have hruled : ruled.steps =
      (sheetsOf schema).steps ++ d.formulaSteps ++ ruleSteps settings schema := by
    rw [steps_foldl_withSite, steps_before, ← formulaSteps_ofSchema]
    rfl
  have hd : d = ruled.withVerification settings := ofSchema_eq settings schema
  refine ⟨ruled.nextOrder, ?_⟩
  rw [← hruled, ← hformulas, ← steps_withVerification, ← hd]

theorem exists_parts (settings : Settings) (schema : Schema) :
    let d := ofSchema settings schema
    ∃ sheets rules last,
      d.steps = sheets.flatMap (fun p => [p.1, p.2]) ++ d.formulaSteps ++ rules ++ last ∧
      List.Forall₂ (fun t (p : Step × Step) => p.1.Creates t.name ∧ p.2.Heads t)
        schema.orderedTables sheets ∧
      List.Forall₂ (fun c s => s.Computes schema c) schema.calculationChain d.formulaSteps ∧
      List.Forall₂ (fun x s => s.Restricts x) schema.sites rules ∧
      (schema.calculationChain = [] → last = []) ∧
      (schema.calculationChain ≠ [] → ∃ s, last = [s] ∧ s.Verifies schema d.formulaSteps) := by
  intro d
  obtain ⟨sheets, hsheets, hheads⟩ := exists_steps_withTables
    { tables := schema.orderedTables.map (·.name) } schema.orderedTables
  have hformulas : List.Forall₂ (fun c s => s.Computes schema c) schema.calculationChain
      d.formulaSteps := by
    rw [formulaSteps_eq]
    exact forall₂_map_zipIdx fun x _ => computes_formulaAt settings schema x.2 x.1
  have hrules : List.Forall₂ (fun x s => s.Restricts x) schema.sites
      (ruleSteps settings schema) :=
    forall₂_map_zipIdx fun x _ => restricts_ruleStep _ x.1 x.2
  have hempty : d.formulaSteps = [] ↔ schema.calculationChain = [] := by
    rw [← List.length_eq_zero_iff, ← hformulas.length_eq, List.length_eq_zero_iff]
  have hfirst : (sheetsOf schema).steps = sheets.flatMap fun p => [p.1, p.2] := hsheets
  obtain ⟨order, hsteps⟩ := exists_steps_eq settings schema
  rw [hfirst] at hsteps
  exact ⟨sheets, _, _, hsteps, hheads, hformulas, hrules, fun hnone => if_pos (hempty.2 hnone),
    fun hsome => ⟨_, if_neg (mt hempty.1 hsome), verifies_verifyResults settings schema order⟩⟩

/-- The steps of a draft: two for each table, one for each computation and each rule, and in the end
one that verifies the formulas. -/
theorem ofSchema_parts (settings : Settings) (schema : Schema) :
    let d := ofSchema settings schema
    let names := schema.tables.map (·.name)
    let tables := d.tables.filterMap schema.table?
    (d.tables = (schema.executionOrder.filter (· ∈ names)).eraseDups ++
      (names.filter (· ∉ schema.executionOrder)).eraseDups ∧
      d.tables.Nodup ∧ (∀ name, name ∈ d.tables ↔ name ∈ names) ∧
      tables.map (·.name) = d.tables) ∧
    ∃ sheets rules last,
      d.steps = sheets.flatMap (fun p => [p.1, p.2]) ++ d.formulaSteps ++ rules ++ last ∧
      List.Forall₂ (fun t (p : Step × Step) => p.1.Creates t.name ∧ p.2.Heads t) tables sheets ∧
      List.Forall₂ (fun c s => s.Computes schema c) schema.calculationChain d.formulaSteps ∧
      List.Forall₂ (fun x s => s.Restricts x) (tables.flatMap Table.sites) rules ∧
      (schema.calculationChain = [] → last = []) ∧
      (schema.calculationChain ≠ [] → ∃ s, last = [s] ∧ s.Verifies schema d.formulaSteps) := by
  intro d names tables
  have hnames : d.tables = schema.orderedTables.map (·.name) := tables_ofSchema settings schema
  have htables : tables = schema.orderedTables := by
    rw [← schema.filterMap_table?_orderedTables, ← hnames]
  have horder := hnames.trans schema.map_name_orderedTables
  have hnodup : d.tables.Nodup := hnames ▸ schema.nodup_orderedTables
  have hkept : tables.map (·.name) = d.tables := by rw [htables, hnames]
  refine ⟨⟨horder, hnodup, fun name => mem_tables_ofSchema, hkept⟩, ?_⟩
  rw [htables]
  exact exists_parts settings schema

end Draft

end WorkbookPlan
