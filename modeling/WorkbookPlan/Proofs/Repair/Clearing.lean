import WorkbookPlan.Proofs.Draft.Columns

/-! What is cleared for a failed write. Each write step of a draft says where it writes, and repairs
hand this down; so what is cleared for it is what it writes, on the same sheet. -/
namespace WorkbookPlan

open Step Sheet

namespace Step

variable {s t : Step}

/-- Where the step writes is said by a range or a preview, if it writes at all. -/
structure Located (s : Step) : Prop extends s.Legible where
  named : s.isWrite = true → (s.param? "range").isSome ∨ s.preview.isSome

theorem Follows.located (h : t.Follows s) (hs : s.Located) : t.Located where
  toLegible := h.legible hs.toLegible
  named hwrite := by
    rcases h.range with hsome | ⟨hrange, hpreview⟩
    · exact .inl hsome
    · rw [hrange, hpreview]
      exact hs.named (h.isWrite ▸ hwrite)

/-- Only a step without a range and without a preview would be cleared elsewhere. -/
theorem Located.footprint?_clearRange (h : s.Located) (hwrite : s.isWrite = true) (id : StepId) :
    (Patch.clearRange s id).footprint? = s.footprint? := by
  have hparse : Area.parse (Patch.writtenRange s) = Area.parse s.writtenRange := by
    rcases Patch.parse_writtenRange h.previews with hparse | ⟨hrange, hpreview⟩
    · exact hparse
    · have hnamed := h.named hwrite
      rw [hrange, hpreview] at hnamed
      exact absurd hnamed (by decide)
  apply footprint?_congr hwrite.symm
  · exact Patch.sheet?_clearRange h.toLegible hwrite id
  · rw [Patch.writtenRange_clearRange, hparse]

end Step

namespace Patch

variable {failed t : Step}

theorem located_createSheet (failed : Step) (id : StepId) (sheet : String) :
    (createSheet failed id sheet).Located where
  toLegible := legible_createSheet failed id sheet
  named _ := .inr rfl

theorem located_clearRange (failed : Step) (id : StepId) : (clearRange failed id).Located where
  toLegible := legible_clearRange failed id
  named _ := .inr rfl

theorem Offspring.located (h : Offspring failed t) (hfailed : failed.Located) : t.Located := by
  cases h with
  | copy hfollows => exact hfollows.located hfailed
  | creation id sheet => exact located_createSheet failed id sheet
  | clearing id => exact located_clearRange failed id

end Patch

namespace Draft

variable {settings : Settings} {schema : Schema} {s : Step}

theorem located_of_mem (hs : s ∈ (ofSchema settings schema).steps) : s.Located where
  toLegible := legible_of_mem hs
  named hwrite := by
    cases drafted_of_mem hs with
    | verification => cases hwrite
    | _ => exact .inr rfl

end Draft

namespace Repair

variable {s t : Step}

/-- The second step is the first one, or repairs make it out of the first, one after the other. In
between its place and its state may change. -/
inductive Derives (s : Step) : Step → Prop where
  | refl : Derives s s
  | moved {t : Step} (order : Nat) (status : Status) :
      Derives s t → Derives s { t with order := order, status := status }
  | made {t u : Step} {settings : Settings} {token error : String} {context : RepairContext} :
      Derives s t → u ∈ (ofStep settings token t error context).newSteps → Derives s u

theorem Derives.located (h : Derives s t) (hs : s.Located) : t.Located := by
  induction h with
  | refl => exact hs
  | @moved t order status _ ih =>
    have hfollows : { t with order := order, status := status : Step }.Follows t :=
      follows_of_eq rfl rfl rfl rfl
    exact hfollows.located ih
  | made _ hu ih => exact (offspring_of_mem_newSteps hu).located ih

/-- A write step of a draft, or what repairs make of one, is rolled back by one step that clears
just what it writes. -/
theorem rollBack_footprint (settings : Settings) (schema : Schema) (m : Mint)
    (hs : s ∈ (Draft.ofSchema settings schema).steps) (ht : Derives s t)
    (hwrite : t.isWrite = true) :
    ∃ clear sheet area, (Patch.rollBack m t).steps = [clear] ∧
      clear.action = Action.clearRange ∧ clear.isWrite = true ∧
      t.footprint? = some (sheet, area) ∧ clear.footprint? = some (sheet, area) := by
  have hlocated : t.Located := ht.located (Draft.located_of_mem hs)
  obtain ⟨sheet, hsheet⟩ := Option.isSome_iff_exists.1 (hlocated.sheet.trans hwrite)
  have hfootprint := footprint?_of_sheet? hwrite hsheet
  refine ⟨Patch.clearRange t (m.id 1), sheet, _, rfl, rfl, rfl, hfootprint, ?_⟩
  rw [hlocated.footprint?_clearRange hwrite, hfootprint]

/-- The formula of a column with its guard, which fails again. -/
theorem rollBack_footprint_guarded :
    let schema : Schema :=
      { tables := [⟨"Price List", [⟨"a", none, none, none⟩, ⟨"b", some "=1", none, none⟩], []⟩]
        calculationChain := [{ sheet := "Price List", field := "b", formula := "=1" }] }
    ∃ s ∈ (Draft.ofSchema {} schema).steps,
      ∃ t ∈ (ofStep {} "TOKEN" s "#REF!" ⟨0, [], none⟩).newSteps,
        t.param? "logicalFormula" = some "=IFERROR(1, \x22\x22)" ∧ t.isWrite = true ∧
        ∃ clear, (Patch.rollBack ⟨2, "TOKEN"⟩ t).steps = [clear] ∧
          clear.footprint? = some ("Price List", .cells (Area.columnFrom 1 2)) := by
  intro schema
  obtain ⟨s, hs, t, ht, hformula, hwrite, harea⟩ : ∃ s ∈ (Draft.ofSchema {} schema).steps,
      ∃ t ∈ (ofStep {} "TOKEN" s "#REF!" ⟨0, [], none⟩).newSteps,
        t.param? "logicalFormula" = some "=IFERROR(1, \x22\x22)" ∧ t.isWrite = true ∧
          t.footprint? = some ("Price List", .cells (Area.columnFrom 1 2)) := by
    decide +kernel
  obtain ⟨clear, sheet, area, hsteps, -, -, hfootprint, hclears⟩ :=
    rollBack_footprint {} schema ⟨2, "TOKEN"⟩ hs (.made .refl ht) hwrite
  rw [harea] at hfootprint
  exact ⟨s, hs, t, ht, hformula, hwrite, clear, hsteps, hclears.trans hfootprint.symm⟩

end Repair

end WorkbookPlan
