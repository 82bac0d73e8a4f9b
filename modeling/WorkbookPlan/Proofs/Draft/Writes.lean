import Mathlib.Data.List.Pairwise
import WorkbookPlan.Proofs.Draft.Rules
import WorkbookPlan.Proofs.Step.Footprint

/-! What the steps of a draft write. A formula and a rule write the column of their field, and wait
for whoever wrote it before; the sheet and its headers come before both. So no two steps of a draft
clash. -/
namespace WorkbookPlan

open Relation Step Sheet Writes

namespace Schema

variable {schema : Schema} {sheet field : String}

/-- A field of the first table of a name has a place there. -/
theorem exists_place (h : (schema.field? sheet field).isSome) :
    ∃ t i f, schema.table? sheet = some t ∧ t.fields[i]? = some f ∧ f.name = field ∧
      schema.columnOf? sheet field = some (Column.name i) := by
  obtain ⟨f, hf⟩ := Option.isSome_iff_exists.1 h
  obtain ⟨t, ht, hf⟩ := Option.bind_eq_some_iff.1 hf
  have hplace : (t.fieldIndex? field).isSome := by
    rw [Table.fieldIndex?, List.findIdx?_isSome, List.any_eq_true]
    exact ⟨f, List.mem_of_find?_eq_some hf, (List.find?_some hf :)⟩
  obtain ⟨i, hi⟩ := Option.isSome_iff_exists.1 hplace
  obtain ⟨hlt, hname, -⟩ := List.findIdx?_eq_some_iff_getElem.1 hi
  refine ⟨t, i, t.fields[i], ht, List.getElem?_eq_getElem hlt, by simpa using hname, ?_⟩
  rw [columnOf?, ht, Option.bind_some, hi, Option.map_some]

end Schema

namespace Draft

variable {settings : Settings} {schema : Schema} {k m i : Nat} {c c' : Computation}
  {x : RuleSite} {order : Nat}

theorem param?_formulaAt (settings : Settings) (schema : Schema) (k : Nat) (c : Computation) :
    (formulaAt settings schema k c).sheet? = some c.sheet ∧
      (formulaAt settings schema k c).param? "range" = none ∧
      (formulaAt settings schema k c).param? "column" = schema.columnOf? c.sheet c.field := by
  refine ⟨?_, ?_, ?_⟩
  · simp [formulaAt, setFormula, sheet?, param?, Json.textAt?, Json.get?_object, List.lookup_cons,
      Json.str?]
  · simp [formulaAt, setFormula, param?, Json.textAt?, Json.get?_object, List.lookup_cons]
  · cases h : schema.columnOf? c.sheet c.field <;>
      simp [formulaAt, setFormula, param?, Json.textAt?, Json.get?_object, List.lookup_cons, h,
        Json.str?]

theorem sheet?_formulaAt (settings : Settings) (schema : Schema) (k : Nat) (c : Computation) :
    (formulaAt settings schema k c).sheet? = some c.sheet :=
  (param?_formulaAt settings schema k c).1

theorem fills_formulaAt (settings : Settings) (k : Nat)
    (hcolumn : schema.columnOf? c.sheet c.field = some (Column.name i)) :
    (formulaAt settings schema k c).Fills c.sheet i where
  isWrite := rfl
  sheet := sheet?_formulaAt settings schema k c
  range := (param?_formulaAt settings schema k c).2.1
  preview := by
    simp [formulaAt, setFormula, hcolumn, Preview.of]

theorem param?_ruleStep (o : Owners) (x : RuleSite) (order : Nat) :
    (ruleStep o x order).sheet? = some x.table.name ∧
      (ruleStep o x order).param? "range" = none ∧
      (ruleStep o x order).param? "column" = some (Column.name x.place) := by
  refine ⟨?_, ?_, ?_⟩ <;>
    simp [ruleStep, addValidation, sheet?, param?, Json.textAt?, Json.get?_object, List.lookup_cons,
      Json.str?]

theorem fills_ruleStep (o : Owners) (x : RuleSite) (order : Nat) :
    (ruleStep o x order).Fills x.table.name x.place where
  isWrite := rfl
  sheet := (param?_ruleStep o x order).1
  range := (param?_ruleStep o x order).2.1
  preview := rfl

theorem needs_ruleStep {id : StepId}
    (hmem : ruleStep (ofSchema settings schema).owners x order ∈ (ofSchema settings schema).steps)
    (howner : (before settings schema schema.calculationChain.length).owners.owner?
      x.table.name x.field.name = some id) :
    Needs (ofSchema settings schema).steps
      (ruleStep (ofSchema settings schema).owners x order).id id := by
  refine ⟨_, hmem, rfl, ?_⟩
  rw [← (completes_ofSchema settings schema).owners] at howner
  exact Option.mem_toList.2 howner

/-- A rule goes back to the sheet and to the headers of its table. -/
theorem reaches_sheet_of_rule (hx : x ∈ schema.sites)
    (hmem : ruleStep (ofSchema settings schema).owners x order ∈ (ofSchema settings schema).steps)
    {s : Step} (hs : s ∈ (ofSchema settings schema).steps) (hset : s.SetsUp x.table.name) :
    TransGen (Needs (ofSchema settings schema).steps)
      (ruleStep (ofSchema settings schema).owners x order).id s.id := by
  obtain ⟨htable, hfield⟩ := Schema.mem_sites hx
  have hname : x.field.name ∈ x.table.fieldNames :=
    List.mem_map_of_mem (List.mem_of_getElem? hfield)
  obtain ⟨id, howner, hpath⟩ := exists_owner settings htable hname _
  exact .head' (needs_ruleStep hmem howner) (hpath s hs hset)

/-- The headers of a table wait for its sheet. -/
theorem settled_of_setsUp {s t : Step} {name : String} (hs : s ∈ (ofSchema settings schema).steps)
    (ht : t ∈ (ofSchema settings schema).steps) (hsets : s.SetsUp name) (htsets : t.SetsUp name)
    (hne : s ≠ t) : Settled (ofSchema settings schema).steps s t := by
  intro _
  have hsmem := mem_sheetsOf hs hsets.action
  have htmem := mem_sheetsOf ht htsets.action
  obtain ⟨u, hu, hsheet⟩ := (structured_sheetsOf schema).sheets s hsmem
  obtain rfl : name = u.name := Option.some.inj (hsets.sheet.symm.trans hsheet)
  obtain ⟨create, headers, hbuilt⟩ := (structured_sheetsOf schema).built u hu
  have hwaits : TransGen (Needs (ofSchema settings schema).steps) headers.id create.id :=
    .single ⟨headers, sheetsOf_subset settings hbuilt.mem_headers, rfl, hbuilt.waits⟩
  rcases hbuilt.only s hsmem hsets.sheet with rfl | rfl <;>
    rcases hbuilt.only t htmem htsets.sheet with rfl | rfl
  · exact absurd rfl hne
  · exact .inr hwaits
  · exact .inl hwaits
  · exact absurd rfl hne

section Fields

variable (hchain : ∀ c ∈ schema.calculationChain, (schema.field? c.sheet c.field).isSome)
  (hwidth : ∀ t ∈ schema.tables, t.fields.length ≤ maxColumns)

include hwidth

theorem place_lt {t : Table} {f : Field} {name : String} (ht : schema.table? name = some t)
    (hf : t.fields[i]? = some f) : i < maxColumns := by
  have hlt := (List.getElem?_eq_some_iff.1 hf).1
  have hle := hwidth t (List.mem_of_find?_eq_some ht)
  omega

/-- No two rules are for one column. -/
theorem pairwise_ruleSteps (settings : Settings) :
    (ruleSteps settings schema).Pairwise fun s t => s.collides t = false := by
  refine List.pairwise_map.2 ?_
  have hsites := schema.pairwise_sites
  rw [← List.zipIdx_map_fst (before settings schema schema.calculationChain.length).nextOrder
    schema.sites, List.pairwise_map] at hsites
  refine List.Pairwise.imp_of_mem (fun {x y} hx hy hplaces => ?_) hsites
  obtain ⟨hxtable, hxfield⟩ := Schema.mem_sites (List.fst_mem_of_mem_zipIdx hx)
  obtain ⟨hytable, hyfield⟩ := Schema.mem_sites (List.fst_mem_of_mem_zipIdx hy)
  refine Bool.eq_false_iff.2 fun hcollides => ?_
  obtain ⟨hsheet, hplace⟩ := (fills_ruleStep _ x.1 x.2).eq_of_collides (fills_ruleStep _ y.1 y.2)
    (place_lt hwidth (Schema.mem_orderedTables.1 hxtable) hxfield)
    (place_lt hwidth (Schema.mem_orderedTables.1 hytable) hyfield) hcollides
  exact hplaces hsheet hplace

theorem settled_ruleSteps {s t : Step} (hs : s ∈ ruleSteps settings schema)
    (ht : t ∈ ruleSteps settings schema) (hne : s ≠ t) :
    Settled (ofSchema settings schema).steps s t := by
  have : Std.Symm fun s t : Step => s.collides t = false := ⟨fun s t h => collides_comm t s ▸ h⟩
  intro hcollides
  rw [(pairwise_ruleSteps hwidth settings).forall hs ht hne] at hcollides
  cases hcollides

include hchain

/-- A field whose column a formula touches is owned by the formula behind it. -/
theorem owner?_of_collides {s : Step} {t : Table} {f : Field} {sheet : String}
    (hc : schema.calculationChain[k]? = some c) (hs : s.Fills sheet i)
    (ht : schema.table? sheet = some t) (hf : t.fields[i]? = some f)
    (hcollides : (formulaAt settings schema k c).collides s = true) :
    (before settings schema (k + 1)).owners.owner? sheet f.name =
      some (formulaAt settings schema k c).id := by
  obtain ⟨t', j, f', ht', hf', hname, hcolumn⟩ :=
    Schema.exists_place (hchain c (List.mem_of_getElem? hc))
  have hj := place_lt hwidth ht' hf'
  have hi := place_lt hwidth ht hf
  obtain ⟨rfl, rfl⟩ := (fills_formulaAt settings k hcolumn).eq_of_collides hs hj hi hcollides
  obtain rfl := Option.some.inj (ht.symm.trans ht')
  obtain rfl := Option.some.inj (hf.symm.trans hf')
  rw [owners_before_succ settings hc, hname, Owners.owner?_register_self]

/-- A formula for a column waits for the formula before it. -/
theorem settled_formulas (hc : schema.calculationChain[k]? = some c)
    (hc' : schema.calculationChain[m]? = some c') (hlt : k < m) :
    Settled (ofSchema settings schema).steps (formulaAt settings schema k c)
      (formulaAt settings schema m c') := by
  intro hcollides
  obtain ⟨t, i, f, ht, hf, hname, hcolumn⟩ :=
    Schema.exists_place (hchain c' (List.mem_of_getElem? hc'))
  have howner :=
    owner?_of_collides hchain hwidth hc (fills_formulaAt settings m hcolumn) ht hf hcollides
  obtain ⟨id, hlast, hpath⟩ := reaches_owner settings (hname ▸ howner) hlt
  exact .inr (.head' ⟨_, formulaAt_mem settings hc', rfl, mem_computationDeps.2 (.inr hlast)⟩ hpath)

/-- A rule for a column waits for its last formula. -/
theorem settled_formula_rule (hc : schema.calculationChain[k]? = some c) (hx : x ∈ schema.sites)
    (hmem : ruleStep (ofSchema settings schema).owners x order ∈ (ofSchema settings schema).steps) :
    Settled (ofSchema settings schema).steps (formulaAt settings schema k c)
      (ruleStep (ofSchema settings schema).owners x order) := by
  intro hcollides
  obtain ⟨htable, hfield⟩ := Schema.mem_sites hx
  have howner := owner?_of_collides hchain hwidth hc (fills_ruleStep _ x order)
    (Schema.mem_orderedTables.1 htable) hfield hcollides
  have hlt := (List.getElem?_eq_some_iff.1 hc).1
  obtain ⟨id, hlast, hpath⟩ := reaches_owner settings howner hlt
  exact .inr (.head' (needs_ruleStep hmem hlast) hpath)

end Fields

theorem setsUp_creation (d : Draft) (t : Table) : (d.creation t).SetsUp t.name :=
  ⟨.inl rfl, sheet?_creation d t⟩

theorem setsUp_heading (d : Draft) (t : Table) : (d.heading t).SetsUp t.name :=
  ⟨.inr rfl, sheet?_heading d t⟩

theorem settled_verification (order : Nat) (formulas : List Step) (s : Step) :
    Settled (ofSchema settings schema).steps s (verifyResults settings order formulas) := by
  intro hcollides
  obtain ⟨_, _, _, -, hnone, -⟩ := collides_iff.1 hcollides
  cases hnone

/-- What makes a sheet or writes its headers comes before all other writes on it. -/
theorem settled_of_sets
    (hchain : ∀ c ∈ schema.calculationChain, (schema.field? c.sheet c.field).isSome)
    {s t : Step} {name : String} (hs : s ∈ (ofSchema settings schema).steps) (hsets : s.SetsUp name)
    (ht : t ∈ (ofSchema settings schema).steps) (hne : s ≠ t) :
    Settled (ofSchema settings schema).steps s t := by
  intro hcollides
  have hsheet : t.sheet? = some name := by
    rw [← sheet?_eq_of_collides hcollides, hsets.sheet]
  cases drafted_of_mem ht with
  | creation d =>
    exact settled_of_setsUp hs ht hsets ⟨.inl rfl, hsheet⟩ hne hcollides
  | heading d =>
    exact settled_of_setsUp hs ht hsets ⟨.inr rfl, hsheet⟩ hne hcollides
  | formula hc =>
    obtain ⟨-, -, hpath⟩ := reaches_sheet settings hc (hchain _ (List.mem_of_getElem? hc))
    rw [sheet?_formulaAt] at hsheet
    obtain rfl := Option.some.inj hsheet
    exact .inr (hpath s hs hsets)
  | rule hx =>
    rw [(fills_ruleStep _ _ _).sheet] at hsheet
    obtain rfl := Option.some.inj hsheet
    exact .inr (reaches_sheet_of_rule hx ht hs hsets)
  | verification order formulas => exact settled_verification order formulas s hcollides

/-- If each entry of the calculation chain is for a field of the first table of its name, and no
table has more fields than a sheet has columns, no two steps of a draft clash. -/
theorem ofSchema_clashes (settings : Settings) (schema : Schema)
    (hchain : ∀ c ∈ schema.calculationChain, (schema.field? c.sheet c.field).isSome)
    (hwidth : ∀ t ∈ schema.tables, t.fields.length ≤ maxColumns) :
    clashes (ofSchema settings schema).steps = [] := by
  have hnodup := (sound_ofSchema settings schema).ordered.nodup_ids
  refine (clashes_eq_nil_iff hnodup).2 ((hnodup.of_map _).pairwise_of_forall_ne ?_)
  intro s hs t ht hne
  cases drafted_of_mem hs with
  | creation d => exact settled_of_sets hchain hs (setsUp_creation d _) ht hne
  | heading d => exact settled_of_sets hchain hs (setsUp_heading d _) ht hne
  | @formula k c hc =>
    cases drafted_of_mem ht with
    | creation d => exact (settled_of_sets hchain ht (setsUp_creation d _) hs hne.symm).symm
    | heading d => exact (settled_of_sets hchain ht (setsUp_heading d _) hs hne.symm).symm
    | @formula m c' hc' =>
      rcases Nat.lt_trichotomy k m with hlt | rfl | hlt
      · exact settled_formulas hchain hwidth hc hc' hlt
      · exact absurd (by rw [Option.some.inj (hc.symm.trans hc')]) hne
      · exact (settled_formulas hchain hwidth hc' hc hlt).symm
    | rule hx => exact settled_formula_rule hchain hwidth hc hx ht
    | verification order formulas => exact settled_verification order formulas _
  | rule hx hrule =>
    cases drafted_of_mem ht with
    | creation d => exact (settled_of_sets hchain ht (setsUp_creation d _) hs hne.symm).symm
    | heading d => exact (settled_of_sets hchain ht (setsUp_heading d _) hs hne.symm).symm
    | formula hc => exact (settled_formula_rule hchain hwidth hc hx hs).symm
    | rule _ hrule' => exact settled_ruleSteps hwidth hrule hrule' hne
    | verification order formulas => exact settled_verification order formulas _
  | verification order formulas => exact (settled_verification order formulas t).symm

/-- One field is computed twice and has a rule, and there is a rule in another column. -/
theorem ofSchema_clashes_orders :
    let rule := FieldRule.oneOf ["1", "2"]
    let again (formula : String) : Computation := { sheet := "Orders", field := "Total", formula }
    let schema : Schema :=
      { tables :=
          [⟨"Orders", [⟨"Price", none, some rule, none⟩, ⟨"Total", none, some rule, none⟩], []⟩]
        calculationChain := [again "=Price*2", again "=Price*3"] }
    (∀ c ∈ schema.calculationChain, (schema.field? c.sheet c.field).isSome) ∧
      (∀ t ∈ schema.tables, t.fields.length ≤ maxColumns) ∧
      clashes (ofSchema {} schema).steps = [] := by
  intro rule again schema
  have hchain : ∀ c ∈ schema.calculationChain, (schema.field? c.sheet c.field).isSome := by
    decide +kernel
  have hwidth : ∀ t ∈ schema.tables, t.fields.length ≤ maxColumns := by decide +kernel
  exact ⟨hchain, hwidth, ofSchema_clashes {} schema hchain hwidth⟩

/-- Of two tables of one name the first is built. A formula for a field of the second names no
column, so it may touch the whole sheet, and waits neither for the sheet nor for its headers. -/
theorem ofSchema_clashes_repeated :
    let schema : Schema :=
      { tables := [⟨"T", [⟨"a", none, none, none⟩], []⟩, ⟨"T", [⟨"b", none, none, none⟩], []⟩]
        calculationChain := [{ sheet := "T", field := "b", formula := "=1" }] }
    (∀ c ∈ schema.calculationChain,
        ∃ t ∈ schema.tables, t.name = c.sheet ∧ c.field ∈ t.fieldNames) ∧
      (∀ t ∈ schema.tables, t.fields.length ≤ maxColumns) ∧
      clashes (ofSchema {} schema).steps =
        [⟨"T", "s1_create_sheet_T", "s3_set_formula_T_b"⟩,
          ⟨"T", "s2_write_headers_T", "s3_set_formula_T_b"⟩] := by
  decide +kernel

end Draft

end WorkbookPlan
