import WorkbookPlan.Proofs.Draft.Columns
import WorkbookPlan.Proofs.Draft.Parts

/-! Headers and columns of a draft. The letters and the range of a step that fills a column are those of
the place at which the header of its field stands. -/
namespace WorkbookPlan

open Sheet

/-- The place of a field is the first that has its name. -/
theorem Table.fieldIndex?_eq_some_iff {t : Table} {field : String} {i : Nat} :
    t.fieldIndex? field = some i ↔ t.fieldNames[i]? = some field ∧ field ∉ t.fieldNames.take i := by
  have hnames : t.fieldIndex? field = t.fieldNames.findIdx? (· == field) := by
    rw [fieldIndex?, fieldNames, List.findIdx?_map]
    rfl
  rw [hnames, List.findIdx?_eq_some_iff_getElem, List.getElem?_eq_some_iff]
  constructor
  · rintro ⟨hlt, hname, hbefore⟩
    refine ⟨⟨hlt, by simpa using hname⟩, fun hmem => ?_⟩
    obtain ⟨j, hj, hfield⟩ := List.mem_take_iff_getElem.1 hmem
    exact hbefore j (by omega) (by simpa using hfield)
  · rintro ⟨⟨hlt, hname⟩, hnone⟩
    refine ⟨hlt, by simpa using hname, fun j hj hfield => hnone ?_⟩
    exact List.mem_take_iff_getElem.2 ⟨j, by omega, by simpa using hfield⟩

namespace Step

variable {s : Step} {sheet : String} {i : Nat}

/-- The step fills the column at a place: it gives the letters of this column, and as its range all of
the column from the second row on. -/
structure FillsColumn (i : Nat) (s : Step) : Prop where
  column : ∃ name, s.param? "column" = some name ∧ Column.ofName name = .ok i
  preview : ∃ p, s.preview = some p ∧ Area.parse p.affectedRange = .ok (Area.columnFrom i 2)

theorem Fills.fillsColumn (h : s.Fills sheet i) (hcolumn : s.param? "column" = some (Column.name i))
    (hi : i < maxColumns) : s.FillsColumn i where
  column := ⟨_, hcolumn, Column.ofName_name hi⟩
  preview := by
    obtain ⟨p, hp, hrange⟩ := Option.map_eq_some_iff.1 h.preview
    refine ⟨p, hp, ?_⟩
    rw [hrange, ← text_columnFrom]
    exact Area.parse_text (onSheet_columnFrom hi)

end Step

namespace Draft

variable {settings : Settings} {schema : Schema} {s : Step} {t : Table}

theorem heads_of_mem (hs : s ∈ (ofSchema settings schema).steps)
    (haction : s.action = Action.writeHeaders) : ∃ t ∈ schema.orderedTables, s.Heads t ∧
      s.param? "range" = some (Area.rowSpan 1 t.fields.length).text := by
  cases drafted_of_mem hs with
  | @heading t d ht => exact ⟨t, ht, heads_heading d t, param?_heading d t⟩
  | creation => exact absurd haction (by decide : Action.createSheet ≠ Action.writeHeaders)
  | formula => exact absurd haction (by decide : Action.setFormula ≠ Action.writeHeaders)
  | rule => exact absurd haction (by decide : Action.addValidation ≠ Action.writeHeaders)
  | verification => exact absurd haction (by decide : Action.verifyResults ≠ Action.writeHeaders)

/-- Of the steps one writes headers on the sheet, and these are the headers. -/
def HasHeaders (steps : List Step) (sheet : String) (names : List String) : Prop :=
  ∃ h ∈ steps, h.action = Action.writeHeaders ∧ h.sheet? = some sheet ∧
    h.parameters.get? "headers" = some (.strings names) ∧
    ∀ u ∈ steps, u.action = Action.writeHeaders → u.sheet? = some sheet → u = h

theorem hasHeaders_ofSchema (settings : Settings) {name : String}
    (ht : schema.table? name = some t) :
    HasHeaders (ofSchema settings schema).steps name t.fieldNames := by
  obtain rfl := Schema.name_of_table? ht
  obtain ⟨create, h, hbuilt⟩ :=
    (structured_sheetsOf schema).built t (Schema.mem_orderedTables.2 ht)
  have hmem := sheetsOf_subset settings hbuilt.mem_headers
  obtain ⟨u, hu, hheads, -⟩ := heads_of_mem hmem hbuilt.action_headers
  have hname : u.name = t.name := Option.some.inj (hheads.sheet.symm.trans hbuilt.sheet_headers)
  obtain rfl : t = u := by
    have hfound := Schema.mem_orderedTables.1 hu
    rw [hname, ht] at hfound
    exact Option.some.inj hfound
  refine ⟨h, hmem, hheads.action, hheads.sheet, hheads.headers, fun v hv haction hsheet => ?_⟩
  exact eq_of_setsUp hv hmem ⟨.inr haction, hsheet⟩ ⟨.inr hheads.action, hheads.sheet⟩
    (haction.trans hheads.action.symm)

section Width

variable (hwidth : ∀ t ∈ schema.tables, t.fields.length ≤ maxColumns)

include hwidth

/-- A formula with a column fills the one under the first header with the name of its field. -/
theorem exists_header_of_formula (settings : Settings) (k : Nat) {c : Computation} {column : String}
    (hcolumn : schema.columnOf? c.sheet c.field = some column) :
    ∃ i names, (formulaAt settings schema k c).FillsColumn i ∧
      HasHeaders (ofSchema settings schema).steps c.sheet names ∧ names[i]? = some c.field ∧
      c.field ∉ names.take i := by
  obtain ⟨t, ht, i, hlt, hi, rfl⟩ := exists_of_columnOf? hwidth hcolumn
  obtain ⟨hfield, hfirst⟩ := Table.fieldIndex?_eq_some_iff.1 hi
  have hparam : (formulaAt settings schema k c).param? "column" = some (Column.name i) :=
    (param?_formulaAt settings schema k c).2.2.trans hcolumn
  exact ⟨i, t.fieldNames, (fills_formulaAt settings k hcolumn).fillsColumn hparam hlt,
    hasHeaders_ofSchema settings ht, hfield, hfirst⟩

/-- A rule fills the column under the header of its field. -/
theorem exists_header_of_rule (settings : Settings) (o : Owners) {x : RuleSite} (order : Nat)
    (hx : x ∈ schema.sites) :
    ∃ names, (ruleStep o x order).FillsColumn x.place ∧
      HasHeaders (ofSchema settings schema).steps x.table.name names ∧
      names[x.place]? = some x.field.name := by
  obtain ⟨htable, hfield⟩ := Schema.mem_sites hx
  have ht := Schema.mem_orderedTables.1 htable
  refine ⟨x.table.fieldNames, ?_, hasHeaders_ofSchema settings ht, ?_⟩
  · exact (fills_ruleStep o x order).fillsColumn (param?_ruleStep o x order).2.2
      (place_lt hwidth ht hfield)
  · rw [Table.fieldNames, List.getElem?_map, hfield, Option.map_some]

end Width

/-- Formula and rule steps fill the column that has their field as its header, a formula the first
such column. -/
theorem ofSchema_headers (settings : Settings) (schema : Schema)
    (hwidth : ∀ t ∈ schema.tables, t.fields.length ≤ maxColumns) :
    let steps := (ofSchema settings schema).steps
    (∀ s ∈ steps, s.action = Action.setFormula ∧ (s.param? "column").isSome ∨
        s.action = Action.addValidation →
      ∃ sheet field i names, s.sheet? = some sheet ∧ s.param? "field" = some field ∧
        s.FillsColumn i ∧ HasHeaders steps sheet names ∧ names[i]? = some field ∧
        (s.action = Action.setFormula → field ∉ names.take i)) ∧
    ∀ h ∈ steps, h.action = Action.writeHeaders →
      ∃ names range, h.parameters.get? "headers" = some (.strings names) ∧
        h.param? "range" = some range ∧
        (1 ≤ names.length → Area.parse range = .ok ⟨0, names.length - 1, 1, some 1⟩) := by
  intro steps
  constructor
  · intro s hs hkind
    have haction := hkind.imp_left And.left
    cases drafted_of_mem hs with
    | creation =>
      exact absurd haction (by decide : ¬ (Action.createSheet = Action.setFormula ∨
        Action.createSheet = Action.addValidation))
    | heading =>
      exact absurd haction (by decide : ¬ (Action.writeHeaders = Action.setFormula ∨
        Action.writeHeaders = Action.addValidation))
    | @formula k c hc =>
      have hcomputes := computes_formulaAt settings schema k c
      obtain ⟨-, hsome⟩ :=
        hkind.resolve_right (by decide : Action.setFormula ≠ Action.addValidation)
      obtain ⟨column, hcolumn⟩ := Option.isSome_iff_exists.1 hsome
      rw [hcomputes.column] at hcolumn
      obtain ⟨i, names, hfills, hheaders, hfield, hfirst⟩ :=
        exists_header_of_formula hwidth settings k hcolumn
      exact ⟨c.sheet, c.field, i, names, hcomputes.sheet, hcomputes.field, hfills, hheaders, hfield,
        fun _ => hfirst⟩
    | @rule x order hx =>
      have hrestricts := restricts_ruleStep (ofSchema settings schema).owners x order
      obtain ⟨names, hfills, hheaders, hfield⟩ :=
        exists_header_of_rule hwidth settings (ofSchema settings schema).owners order hx
      exact ⟨x.table.name, x.field.name, x.place, names, hrestricts.sheet, hrestricts.field, hfills,
        hheaders, hfield, fun h => absurd h (by decide : Action.addValidation ≠ Action.setFormula)⟩
    | verification =>
      exact absurd haction (by decide : ¬ (Action.verifyResults = Action.setFormula ∨
        Action.verifyResults = Action.addValidation))
  · intro h hh haction
    obtain ⟨t, ht, hheads, hrange⟩ := heads_of_mem hh haction
    have hle := hwidth t (List.mem_of_find?_eq_some (Schema.mem_orderedTables.1 ht))
    refine ⟨t.fieldNames, _, hheads.headers, hrange, fun _ => ?_⟩
    rw [Area.parse_rowSpan hle, Table.fieldNames, List.length_map]
    simp [Area.rowSpan, Area.ofCorners]

/-- The name of a field is there twice. The formula is for the first place, the rule for the second. -/
theorem ofSchema_headers_repeated :
    let rule := FieldRule.oneOf ["1", "2"]
    let schema : Schema :=
      { tables := [⟨"Orders", [⟨"Price", none, none, none⟩, ⟨"Total", none, none, none⟩,
          ⟨"Total", none, some rule, none⟩], []⟩]
        calculationChain := [{ sheet := "Orders", field := "Total", formula := "=Price*2" }] }
    let steps := (ofSchema {} schema).steps
    (∀ t ∈ schema.tables, t.fields.length ≤ maxColumns) ∧
      (∃ s ∈ steps, s.action = Action.setFormula ∧ s.param? "column" = some "B" ∧
        ∃ i names, s.FillsColumn i ∧ HasHeaders steps "Orders" names ∧ names[i]? = some "Total" ∧
          "Total" ∉ names.take i) ∧
      (∃ s ∈ steps, s.action = Action.addValidation ∧ s.param? "column" = some "C" ∧
        ∃ i names, s.FillsColumn i ∧ HasHeaders steps "Orders" names ∧ names[i]? = some "Total") ∧
      ∃ h ∈ steps, h.action = Action.writeHeaders ∧ ∃ range, h.param? "range" = some range ∧
        Area.parse range = .ok ⟨0, 2, 1, some 1⟩ := by
  intro rule schema steps
  have hwidth : ∀ t ∈ schema.tables, t.fields.length ≤ maxColumns := by decide +kernel
  obtain ⟨hcolumns, hheaders⟩ := ofSchema_headers {} schema hwidth
  have hformula : ∃ s ∈ steps, s.action = Action.setFormula ∧ s.param? "column" = some "B" ∧
      s.sheet? = some "Orders" ∧ s.param? "field" = some "Total" := by decide +kernel
  have hrule : ∃ s ∈ steps, s.action = Action.addValidation ∧ s.param? "column" = some "C" ∧
      s.sheet? = some "Orders" ∧ s.param? "field" = some "Total" := by decide +kernel
  have hheading : ∃ h ∈ steps, h.action = Action.writeHeaders ∧
      h.parameters.get? "headers" = some (.strings ["Price", "Total", "Total"]) := by
    decide +kernel
  refine ⟨hwidth, ?_, ?_, ?_⟩
  · obtain ⟨s, hs, haction, hcolumn, hsheet, hfield⟩ := hformula
    obtain ⟨sheet, field, i, names, hsheet', hfield', hfills, hnames, hat, hfirst⟩ :=
      hcolumns s hs (.inl ⟨haction, Option.isSome_of_eq_some hcolumn⟩)
    obtain rfl := Option.some.inj (hsheet.symm.trans hsheet')
    obtain rfl := Option.some.inj (hfield.symm.trans hfield')
    exact ⟨s, hs, haction, hcolumn, i, names, hfills, hnames, hat, hfirst haction⟩
  · obtain ⟨s, hs, haction, hcolumn, hsheet, hfield⟩ := hrule
    obtain ⟨sheet, field, i, names, hsheet', hfield', hfills, hnames, hat, -⟩ :=
      hcolumns s hs (.inr haction)
    obtain rfl := Option.some.inj (hsheet.symm.trans hsheet')
    obtain rfl := Option.some.inj (hfield.symm.trans hfield')
    exact ⟨s, hs, haction, hcolumn, i, names, hfills, hnames, hat⟩
  · obtain ⟨h, hh, haction, hthree⟩ := hheading
    obtain ⟨names, range, hnames, hrange, hparse⟩ := hheaders h hh haction
    obtain rfl : names = ["Price", "Total", "Total"] := by
      simpa [Json.strings, List.map_eq_cons_iff] using hnames.symm.trans hthree
    exact ⟨h, hh, haction, range, hrange, hparse (by decide)⟩

end Draft

end WorkbookPlan
