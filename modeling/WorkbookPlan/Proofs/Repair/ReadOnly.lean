import WorkbookPlan.Proofs.Draft.Columns
import WorkbookPlan.Proofs.Repair.MissingSheet
import WorkbookPlan.Proofs.Repair.Shape

/-! Repairs of a step that writes nothing. They write nothing either, except that they make a sheet that
the error names as missing; only a roll back clears cells, though the step has written none. -/
namespace WorkbookPlan

open Step Sheet

namespace Strategy

variable {failure : Failure} {count limit : Nat}

theorem below_eq_rollBack_iff {isFirst : Bool} : below isFirst failure = rollBack ↔
    isFirst = false ∧ failure ∈ [Failure.execution, Failure.unexplained] := by
  cases failure <;> cases isFirst <;> decide

/-- A step is rolled back after an error of no special kind, but not at once. -/
theorem choose_eq_rollBack_iff : choose failure count limit = rollBack ↔
    0 < count ∧ count < limit ∧ failure ∈ [Failure.execution, Failure.unexplained] := by
  unfold choose
  split
  · next hlimit =>
    constructor
    · exact fun h => nomatch h
    · exact fun ⟨_, hbelow, _⟩ => absurd hlimit (Nat.not_le.2 hbelow)
  · next hbelow =>
    rw [below_eq_rollBack_iff, beq_eq_false_iff_ne, Nat.pos_iff_ne_zero]
    constructor
    · exact fun ⟨hlater, hfailure⟩ => ⟨hlater, Nat.lt_of_not_le hbelow, hfailure⟩
    · exact fun ⟨hlater, _, hfailure⟩ => ⟨hlater, hfailure⟩

end Strategy

namespace Repair

variable {settings : Settings} {token : String} {failed t : Step} {error : String}
  {context : RepairContext}

/-- What a repair of a step that writes nothing writes all the same. -/
theorem writes_of_reader (hreads : failed.isWrite = false)
    (ht : t ∈ (ofStep settings token failed error context).newSteps) (hwrite : t.isWrite = true) :
    (∃ sheet, MissingSheet.Names (context.errorText error) sheet ∧
      t = Patch.createSheet failed t.id sheet) ∨
      ((ofStep settings token failed error context).strategy = .rollBack ∧
        t = Patch.clearRange failed t.id) := by
  rcases (Patch.built_of_mem ht).made with hagain | ⟨-, sheet, hsheet, hmade⟩ | hclears
  · rw [hagain.isWrite, hreads] at hwrite
    cases hwrite
  · exact .inl ⟨sheet, MissingSheet.names_of_find? hsheet, hmade⟩
  · exact .inr hclears

/-- The step is rolled back: the error is of no special kind, and there were repairs before, but fewer
than the limit. -/
def RollsBack (settings : Settings) (error : String) (context : RepairContext) : Prop :=
  0 < context.count ∧ context.count < settings.maxRepairs ∧
    Failure.ofText (context.errorText error) ∈ [Failure.execution, Failure.unexplained]

theorem rollsBack_iff : (ofStep settings token failed error context).strategy = .rollBack ↔
    RollsBack settings error context := by
  rw [strategy_ofStep, Strategy.choose_eq_rollBack_iff, RollsBack]

/-- The repair of a step that writes nothing writes nothing, apart from a missing sheet that it
makes and a range that a roll-back clears. -/
theorem ofStep_of_reader (settings : Settings) (token : String) (error : String)
    (context : RepairContext) (hreads : failed.isWrite = false) :
    let r := ofStep settings token failed error context
    (¬ RollsBack settings error context → ∀ t ∈ r.newSteps, t.isWrite = true →
      ∃ sheet, MissingSheet.Names (context.errorText error) sheet ∧
        t.action = Action.createSheet ∧ t.parameters = .object [("sheet", .str sheet)]) ∧
    (RollsBack settings error context → ∃ t, r.newSteps = [t] ∧ t.action = Action.clearRange ∧
      t.isWrite = true ∧ t.sheet? = some (failed.sheet?.getD "")) := by
  intro r
  constructor
  · intro hkeeps t ht hwrite
    rcases writes_of_reader hreads ht hwrite with ⟨sheet, hnames, hmade⟩ | ⟨hrollBack, -⟩
    · rw [hmade]
      exact ⟨sheet, hnames, rfl, rfl⟩
    · exact absurd (rollsBack_iff.1 hrollBack) hkeeps
  · intro hrolls
    have hsteps : r.patch = Patch.rollBack ⟨context.count + 1, token⟩ failed := by
      rw [patch_ofStep, rollsBack_iff.2 hrolls]
      rfl
    exact ⟨_, congrArg Patch.steps hsteps, rfl, rfl, (Patch.param?_clearRange failed _).1⟩

def priceCheck : Step where
  id := "v1"
  order := 4
  stage := .verify
  action := "read_range"
  parameters := .object [("sheet", .str "Products"), ("range", .str "C2:C8")]
  dependsOn := ["s3"]
  status := .failed

/-- The sheet to look at is missing, or the host crashes for the second time. -/
theorem ofStep_of_reader_prices :
    let missing := ofStep {} "TOKEN" priceCheck "Sheet 'Products' not found" ⟨1, [], none⟩
    let crashed := ofStep {} "TOKEN" priceCheck "host crashed" ⟨1, [], none⟩
    priceCheck.isWrite = false ∧
      (∃ t ∈ missing.newSteps, t.isWrite = true ∧
        ∃ sheet, MissingSheet.Names "Sheet 'Products' not found" sheet ∧
          t.action = Action.createSheet ∧ t.parameters = .object [("sheet", .str sheet)]) ∧
      ∃ t, crashed.newSteps = [t] ∧ t.action = Action.clearRange ∧ t.isWrite = true ∧
        t.sheet? = some "Products" := by
  intro missing crashed
  have hreads : priceCheck.isWrite = false := rfl
  have hkeeps : ¬ RollsBack {} "Sheet 'Products' not found" ⟨1, [], none⟩ := by
    unfold RollsBack
    decide +kernel
  have hrolls : RollsBack {} "host crashed" ⟨1, [], none⟩ := by
    unfold RollsBack
    decide +kernel
  obtain ⟨t, ht, hwrite⟩ : ∃ t ∈ missing.newSteps, t.isWrite = true := by decide +kernel
  have htext : RepairContext.errorText ⟨1, [], none⟩ "Sheet 'Products' not found" =
      "Sheet 'Products' not found" := by decide +kernel
  have hmade := (ofStep_of_reader {} "TOKEN" "Sheet 'Products' not found" ⟨1, [], none⟩ hreads).1
    hkeeps t ht hwrite
  rw [htext] at hmade
  exact ⟨hreads, ⟨t, ht, hwrite, hmade⟩,
    (ofStep_of_reader {} "TOKEN" "host crashed" ⟨1, [], none⟩ hreads).2 hrolls⟩

/-- What a step only looks at is cleared, and for the last step of a draft, which is for no sheet, a
range without a name on a sheet without a name. -/
theorem ofStep_clears_for_reader :
    let schema : Schema :=
      { tables := [⟨"T", [⟨"a", some "=1", none, none⟩], []⟩]
        calculationChain := [{ sheet := "T", field := "a", formula := "=1" }] }
    let repair := fun s => ofStep {} "TOKEN" s "host crashed" ⟨1, [], none⟩
    MissingSheet.find? "host crashed" = none ∧
      (priceCheck.isWrite = false ∧ ∃ t ∈ (repair priceCheck).newSteps,
        t.isWrite = true ∧ t.action = Action.clearRange ∧
          t.footprint? = some ("Products", .cells ⟨2, 2, 2, some 8⟩)) ∧
      ∃ s ∈ (Draft.ofSchema {} schema).steps, s.action = Action.verifyResults ∧
        s.isWrite = false ∧ ∃ t ∈ (repair s).newSteps, t.isWrite = true ∧
          t.action = Action.clearRange ∧ t.footprint? = some ("", .wholeSheet) := by
  decide +kernel

end Repair

end WorkbookPlan
