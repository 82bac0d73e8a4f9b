import WorkbookPlan.Proofs.Text.Blank
import WorkbookPlan.Proofs.Text.Pattern
import WorkbookPlan.Question.Detect

/-! What a question to the author stands for, and that more text behind a description leads to no question
that the description has answered: what a pattern finds in a text is still found when a blank and more
follow. -/
namespace WorkbookPlan.Question

open Text Text.Pattern

variable {settings : Settings} {task : String} {q : Question} {chars least : Nat} {p : Pattern}
  {cs more : List Char}

theorem mem_askIf {cause : Bool} {q' : Question} : q ∈ askIf cause q' ↔ cause = true ∧ q = q' := by
  cases cause <;> simp [askIf]

section Causes

theorem tooShort_mem_detect_iff : tooShort chars least ∈ detect settings task ↔
    chars < least ∧ chars = (trim task.toList).length ∧ least = settings.minDescriptionChars := by
  simp only [detect, List.mem_append, mem_askIf, decide_eq_true_eq, tooShort.injEq, reduceCtorEq,
    and_false, or_false]
  constructor
  · rintro ⟨hlt, rfl, rfl⟩
    exact ⟨hlt, rfl, rfl⟩
  · rintro ⟨hlt, rfl, rfl⟩
    exact ⟨hlt, rfl, rfl⟩

theorem whichSheet_mem_detect_iff : whichSheet ∈ detect settings task ↔
    sheetMention.occursIn (trim task.toList) = false := by
  simp [detect, mem_askIf]

theorem whichRange_mem_detect_iff : whichRange ∈ detect settings task ↔
    rangeMention.occursIn (trim task.toList) = false := by
  simp [detect, mem_askIf]

theorem whichExpression_mem_detect_iff : whichExpression ∈ detect settings task ↔
    calculationMention.occursIn (trim task.toList) = true ∧
      expressionMention.occursIn (trim task.toList) = false := by
  simp [detect, mem_askIf]

end Causes

section MoreText

/-- A description does not get shorter. -/
theorem length_trim_le (cs more : List Char) :
    (trim cs).length ≤ (trim (cs ++ ' ' :: more)).length := by
  by_cases hcs : trim cs = []
  · rw [hcs]
    exact Nat.zero_le _
  · obtain ⟨behind, htrim, -⟩ := exists_trim_append (by decide : isBlank ' ' = true) hcs more
    rw [htrim, List.length_append]
    exact Nat.le_add_right _ _

/-- A pattern that needs text is still found. -/
theorem occursIn_trim_append (hempty : p.occursIn [] = false) (h : p.occursIn (trim cs) = true)
    (more : List Char) : p.occursIn (trim (cs ++ ' ' :: more)) = true := by
  have hcs : trim cs ≠ [] := by
    rintro hcs
    rw [hcs, hempty] at h
    cases h
  obtain ⟨behind, htrim, hblank⟩ := exists_trim_append (by decide : isBlank ' ' = true) hcs more
  rw [htrim]
  refine occursIn_append h ?_
  cases hhead : behind.head? with
  | none => rfl
  | some c => exact isWordChar_of_isBlank (hblank c hhead)

end MoreText

/-- A longer description raises no question for text, sheet or range that the shorter does not, and
none for an expression that the shorter shows. -/
theorem detect_append (settings : Settings) (task more : String) :
    let longer := task ++ " " ++ more
    ((∀ chars least, tooShort chars least ∉ detect settings task) →
      ∀ chars least, tooShort chars least ∉ detect settings longer) ∧
    (whichSheet ∉ detect settings task → whichSheet ∉ detect settings longer) ∧
    (whichRange ∉ detect settings task → whichRange ∉ detect settings longer) ∧
    (expressionMention.occursIn (trim task.toList) = true →
      whichExpression ∉ detect settings longer) := by
  intro longer
  have hlonger : longer.toList = task.toList ++ ' ' :: more.toList := by simp [longer]
  have hlength : (∀ chars least, tooShort chars least ∉ detect settings task) →
      ∀ chars least, tooShort chars least ∉ detect settings longer := by
    intro hlong chars least h
    obtain ⟨hlt, rfl, rfl⟩ := tooShort_mem_detect_iff.1 h
    have hle : (trim task.toList).length ≤ (trim longer.toList).length :=
      hlonger ▸ length_trim_le task.toList more.toList
    exact hlong _ _ (tooShort_mem_detect_iff.2 ⟨Nat.lt_of_le_of_lt hle hlt, rfl, rfl⟩)
  have hsheet : whichSheet ∉ detect settings task → whichSheet ∉ detect settings longer := by
    rw [whichSheet_mem_detect_iff, whichSheet_mem_detect_iff, hlonger, Bool.not_eq_false,
      Bool.not_eq_false]
    exact fun h => occursIn_trim_append (by decide +kernel) h _
  have hrange : whichRange ∉ detect settings task → whichRange ∉ detect settings longer := by
    rw [whichRange_mem_detect_iff, whichRange_mem_detect_iff, hlonger, Bool.not_eq_false,
      Bool.not_eq_false]
    exact fun h => occursIn_trim_append (by decide +kernel) h _
  refine ⟨hlength, hsheet, hrange, fun hshown h => ?_⟩
  have hstill : expressionMention.occursIn (trim longer.toList) = true :=
    hlonger ▸ occursIn_trim_append (by decide +kernel) hshown _
  obtain ⟨-, hhidden⟩ := whichExpression_mem_detect_iff.1 h
  rw [hstill] at hhidden
  cases hhidden

/-- The description ends with the word for a sheet, which the letter behind the blank leaves a word. -/
theorem detect_append_sheet :
    let task := "total A2 - B2 in sheet"
    ((∀ chars least, tooShort chars least ∉ detect {} task) ∧ whichSheet ∉ detect {} task ∧
        whichRange ∉ detect {} task ∧
        expressionMention.occursIn (trim task.toList) = true) ∧
      whichSheet ∉ detect {} (task ++ " " ++ "s") ∧ detect {} "total A2 - B2 in sheet s" = [] := by
  intro task
  have hnone : detect {} task = [] := by decide +kernel
  have hshown : expressionMention.occursIn (trim task.toList) = true := by decide +kernel
  have hlong : ∀ chars least, tooShort chars least ∉ detect {} task := by simp [hnone]
  have hsheet : whichSheet ∉ detect {} task := by simp [hnone]
  have hrange : whichRange ∉ detect {} task := by simp [hnone]
  obtain ⟨hlong', hsheet', hrange', hshown'⟩ := detect_append {} task "s"
  refine ⟨⟨hlong, hsheet, hrange, hshown⟩, hsheet' hsheet, ?_⟩
  refine List.eq_nil_iff_forall_not_mem.2 fun q hq => ?_
  cases q with
  | tooShort chars least => exact hlong' hlong chars least hq
  | whichSheet => exact hsheet' hsheet hq
  | whichRange => exact hrange' hrange hq
  | whichExpression => exact hshown' hshown hq

end WorkbookPlan.Question
