import WorkbookPlan.Proofs.Draft.Writes
import WorkbookPlan.Proofs.Repair.Offspring

/-! Columns of a draft. A step that touches the column of a formula is for the same column, or it is
for the whole sheet; the headers stand above all columns. -/
namespace WorkbookPlan

open Step Sheet

namespace Draft

variable {settings : Settings} {schema : Schema} {k : Nat} {c : Computation}

theorem param?_heading (d : Draft) (t : Table) : (d.heading t).param? "range" =
    some (Area.rowSpan 1 t.fields.length).text := by
  simp [heading, writeHeaders, param?, Json.textAt?, Json.get?_object, List.lookup_cons, Json.str?]

theorem param?_verifyResults (settings : Settings) (order : Nat) (formulas : List Step) :
    (verifyResults settings order formulas).sheet? = none ∧
      (verifyResults settings order formulas).param? "column" = none := by
  constructor <;>
    simp [verifyResults, Step.sheet?, param?, Json.textAt?, Json.get?_object, List.lookup_cons]

theorem action_ne_of_mem {s : Step} (hs : s ∈ (ofSchema settings schema).steps) :
    s.action ≠ Action.clearRange := by
  cases drafted_of_mem hs with
  | creation => exact (by decide : Action.createSheet ≠ Action.clearRange)
  | heading => exact (by decide : Action.writeHeaders ≠ Action.clearRange)
  | formula => exact (by decide : Action.setFormula ≠ Action.clearRange)
  | rule => exact (by decide : Action.addValidation ≠ Action.clearRange)
  | verification => exact (by decide : Action.verifyResults ≠ Action.clearRange)

theorem legible_of_mem {s : Step} (hs : s ∈ (ofSchema settings schema).steps) : s.Legible := by
  cases drafted_of_mem hs with
  | creation d => exact ⟨fun _ _ hcolumn => (nomatch hcolumn), rfl⟩
  | @heading t d =>
    refine ⟨fun _ hrange _ => ?_, by rw [sheet?_heading]; rfl⟩
    rw [param?_heading] at hrange
    cases hrange
  | @formula k c =>
    refine ⟨fun column _ hcolumn => ?_, by rw [sheet?_formulaAt]; rfl⟩
    rw [(param?_formulaAt settings schema k c).2.2] at hcolumn
    simp [formulaAt, setFormula, hcolumn, Preview.of]
  | @rule x order =>
    refine ⟨fun column _ hcolumn => ?_, by rw [(fills_ruleStep _ x order).sheet]; rfl⟩
    rw [(param?_ruleStep _ x order).2.2] at hcolumn
    cases hcolumn
    exact (fills_ruleStep _ x order).preview
  | verification order formulas =>
    obtain ⟨hsheet, hcolumn⟩ := param?_verifyResults settings order formulas
    refine ⟨fun _ _ hsome => ?_, by rw [hsheet]; rfl⟩
    rw [hcolumn] at hsome
    cases hsome

/-- Only the last step writes nothing. -/
theorem action_of_not_write {s : Step} (hs : s ∈ (ofSchema settings schema).steps)
    (hwrite : s.isWrite = false) : s.action = Action.verifyResults := by
  cases drafted_of_mem hs with
  | verification => rfl
  | _ => cases hwrite

section Width

variable (hwidth : ∀ t ∈ schema.tables, t.fields.length ≤ maxColumns)

include hwidth

theorem exists_of_columnOf? {sheet field column : String}
    (h : schema.columnOf? sheet field = some column) :
    ∃ t, schema.table? sheet = some t ∧
      ∃ i < maxColumns, t.fieldIndex? field = some i ∧ column = Column.name i := by
  obtain ⟨t, ht, h⟩ := Option.bind_eq_some_iff.1 h
  obtain ⟨i, hi, rfl⟩ := Option.map_eq_some_iff.1 h
  obtain ⟨hlt, -, -⟩ := List.findIdx?_eq_some_iff_getElem.1 hi
  exact ⟨t, ht, i, place_lt hwidth ht (List.getElem?_eq_getElem hlt), hi, rfl⟩

/-- The headers stand in the first row. -/
theorem footprint?_heading {t : Table} (d : Draft) (ht : t ∈ schema.orderedTables) :
    (d.heading t).footprint? =
      some (t.name, .cells (Area.rowSpan 1 t.fields.length)) := by
  have hle := hwidth t (List.mem_of_find?_eq_some (Schema.mem_orderedTables.1 ht))
  rw [footprint?_of_range (param?_heading d t) (Area.parse_rowSpan hle), sheet?_heading]
  rfl

/-- What touches the column of a formula is for the same column, or for the whole sheet. -/
theorem column_of_collides {s : Step} {column : String}
    (hs : s ∈ (ofSchema settings schema).steps)
    (hcolumn : schema.columnOf? c.sheet c.field = some column)
    (h : s.collides (formulaAt settings schema k c) = true) :
    s.param? "column" = some column ∨
      s.param? "column" = none ∧
        (s.action = Action.createSheet ∨ s.action = Action.setFormula) := by
  obtain ⟨-, -, i, hi, -, rfl⟩ := exists_of_columnOf? hwidth hcolumn
  have hfills := fills_formulaAt settings k hcolumn
  cases drafted_of_mem hs with
  | creation => exact .inr ⟨rfl, .inl rfl⟩
  | heading d ht =>
    obtain ⟨_, _, _, hhere, hthere, hoverlap⟩ := collides_iff.1 h
    rw [footprint?_heading hwidth d ht] at hhere
    rw [hfills.footprint?_eq hi] at hthere
    obtain ⟨-, rfl⟩ := Prod.mk.inj (Option.some.inj hhere)
    obtain ⟨-, rfl⟩ := Prod.mk.inj (Option.some.inj hthere)
    obtain ⟨-, -, -, hrows⟩ := Area.overlaps_iff.1 hoverlap
    exact absurd hrows (by simp [Area.columnFrom, Area.rowSpan, Area.ofCorners, Area.lastRow])
  | @formula m c' =>
    rw [(param?_formulaAt settings schema m c').2.2]
    cases hother : schema.columnOf? c'.sheet c'.field with
    | none => exact .inr ⟨rfl, .inr rfl⟩
    | some other =>
      obtain ⟨-, -, j, hj, -, rfl⟩ := exists_of_columnOf? hwidth hother
      obtain ⟨-, rfl⟩ := (fills_formulaAt settings m hother).eq_of_collides hfills hj hi h
      exact .inl rfl
  | @rule x order hx =>
    obtain ⟨htable, hfield⟩ := Schema.mem_sites hx
    have hplace := place_lt hwidth (Schema.mem_orderedTables.1 htable) hfield
    obtain ⟨-, rfl⟩ := (fills_ruleStep _ x order).eq_of_collides hfills hplace hi h
    exact .inl (param?_ruleStep _ x order).2.2
  | verification order formulas =>
    obtain ⟨_, _, _, hnone, -⟩ := collides_iff.1 h
    cases hnone

end Width

end Draft

end WorkbookPlan
