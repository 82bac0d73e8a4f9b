import WorkbookPlan.Proofs.Repair.MissingSheet
import WorkbookPlan.Proofs.Repair.Shape

/-! Repairs that make a missing sheet. If the error text says of one sheet in quotes that it is missing,
the repair makes the sheet of that name, and then the failed step waits for it. -/
namespace WorkbookPlan

namespace MissingSheet

open Text Text.Pattern

section Letters

variable {c : Char} {cs word : List Char} {words : List String}

theorem toLower_of_not_capital (h : ¬ (65 ≤ c.toNat ∧ c.toNat ≤ 90)) : c.toLower = c := by
  unfold Char.toLower
  exact dif_neg h

def IsAscii (cs : List Char) : Prop :=
  ∀ c ∈ cs, c.toNat < 128

instance (cs : List Char) : Decidable (IsAscii cs) :=
  decidable_of_iff (cs.all (·.toNat < 128) = true) (by simp [IsAscii])

/-- Case mapping and folding differ in no character that a small Latin letter stands for. -/
theorem latinFold_of_toLower (h : c.toLower.toNat < 128) : latinFold c = c.toLower := by
  unfold latinFold
  split
  · next hlong =>
    rw [toLower_of_not_capital (by omega)] at h
    omega
  · split
    · next hkelvin =>
      rw [toLower_of_not_capital (by omega)] at h
      omega
    · rfl

theorem eq_blank_of_toLower (h : c.toLower = ' ') : c = ' ' := by
  by_cases hcapital : 65 ≤ c.toNat ∧ c.toNat ≤ 90
  · have hletter : ∀ n ≤ 90, 65 ≤ n → (Char.ofNat n).toLower ≠ ' ' := by decide
    have hc := hletter c.toNat hcapital.2 hcapital.1
    rw [Char.ofNat_toNat] at hc
    exact absurd h hc
  · rwa [toLower_of_not_capital hcapital] at h

theorem map_latinFold_of_toLower (h : cs.map Char.toLower = word)
    (hascii : IsAscii word) : cs.map latinFold = word := by
  subst h
  refine List.map_congr_left fun c hc => ?_
  exact latinFold_of_toLower (hascii _ (List.mem_map_of_mem hc))

/-- Words that are read with any capitals, and one blank between. -/
theorem phrase_of_toLower (hwords : words ≠ [])
    (hascii : ∀ word ∈ words, IsAscii word.toList)
    (h : cs.map Char.toLower = [' '].intercalate (words.map String.toList)) : Phrase words cs := by
  induction words generalizing cs with
  | nil => exact absurd rfl hwords
  | cons word words ih =>
    have hword : IsAscii word.toList := hascii word List.mem_cons_self
    cases words with
    | nil =>
      have hone : [' '].intercalate ([word].map String.toList) = word.toList := by simp
      rw [hone] at h
      exact .single (map_latinFold_of_toLower h hword)
    | cons word' words =>
      rw [List.map_cons, List.map_cons, List.intercalate_cons_cons] at h
      obtain ⟨_, rest, rfl, hfront, hrest⟩ := List.map_eq_append_iff.1 h
      obtain ⟨first, gap, rfl, hfirst, hgap⟩ := List.map_eq_append_iff.1 hfront
      obtain ⟨c, rfl, hc⟩ := List.map_eq_singleton_iff.1 hgap
      obtain rfl := eq_blank_of_toLower hc
      exact .cons (map_latinFold_of_toLower hfirst hword) isGap_blank
        (ih (List.cons_ne_nil _ _) (fun word hmem => hascii word (List.mem_cons_of_mem _ hmem)) hrest)

theorem phrase_of_mem_verdicts (hwords : words ∈ verdicts)
    (h : cs.map Char.toLower = [' '].intercalate (words.map String.toList)) : Phrase words cs := by
  have hascii : ∀ words ∈ verdicts, ∀ word ∈ words, IsAscii word.toList := by decide
  exact phrase_of_toLower (ne_nil_of_mem_verdicts hwords) (hascii words hwords) h

/-- The word for a sheet ends the word for a worksheet. -/
theorem exists_sheet_of_toLower
    (h : cs.map Char.toLower = "sheet".toList ∨ cs.map Char.toLower = "worksheet".toList) :
    ∃ front sheet, cs = front ++ sheet ∧ Unquoted front ∧ sheet.map latinFold = "sheet".toList := by
  rcases h with h | h
  · exact ⟨[], cs, rfl, by simp [Unquoted], map_latinFold_of_toLower h (by decide)⟩
  · have hparts : "worksheet".toList = "work".toList ++ "sheet".toList := by decide
    rw [hparts] at h
    obtain ⟨front, sheet, rfl, hfront, hsheet⟩ := List.map_eq_append_iff.1 h
    have hwork : Unquoted "work".toList := by decide
    exact ⟨front, sheet, rfl,
      unquoted_of_map_latinFold (map_latinFold_of_toLower hfront (by decide)) hwork,
      map_latinFold_of_toLower hsheet (by decide)⟩

end Letters

section Sentence

variable {error front word name verdict back : String} {opening closing : Char}

/-- An error text says of one sheet in quotes that it is missing. -/
structure Reports (error front word : String) (opening : Char) (name : String) (closing : Char)
    (verdict back : String) : Prop where
  eq : error = front ++ word ++ " " ++ opening.toString ++ name ++ closing.toString ++ " " ++ verdict
    ++ back
  word : word.toLower ∈ ["sheet", "worksheet"]
  opening : isQuote opening = true
  closing : isQuote closing = true
  verdict : verdict.toLower ∈ ["not found", "was not found", "does not exist"]
  front : Unquoted front.toList
  name : Unquoted name.toList
  back : Unquoted back.toList

theorem Reports.find?_eq (h : Reports error front word opening name closing verdict back)
    (hname : trim name.toList ≠ []) : find? error = some (trimmed name) := by
  obtain ⟨heq, hword, hopening, hclosing, hverdict, hfront, hname', hback⟩ := h
  have hsheet : word.toList.map Char.toLower = "sheet".toList ∨
      word.toList.map Char.toLower = "worksheet".toList := by
    rw [← String.toList_map]
    simp only [List.mem_cons, List.not_mem_nil, or_false] at hword
    exact hword.imp (congrArg String.toList) (congrArg String.toList)
  have hwords : ∃ words ∈ verdicts,
      verdict.toList.map Char.toLower = [' '].intercalate (words.map String.toList) := by
    rw [← String.toList_map]
    simp only [List.mem_cons, List.not_mem_nil, or_false] at hverdict
    rcases hverdict with h | h | h
    · exact ⟨["not", "found"], by simp [verdicts], (congrArg String.toList h).trans (by decide)⟩
    · exact ⟨["was", "not", "found"], by simp [verdicts],
        (congrArg String.toList h).trans (by decide)⟩
    · exact ⟨["does", "not", "exist"], by simp [verdicts],
        (congrArg String.toList h).trans (by decide)⟩
  obtain ⟨before, sheet, hparts, hbefore, hsheet⟩ := exists_sheet_of_toLower hsheet
  obtain ⟨words, hwords, hphrase⟩ := hwords
  have hnonempty : name.toList ≠ [] := by
    intro hnil
    rw [hnil] at hname
    exact hname trim_nil
  have hquoted : Quoted (sheet ++ [' '] ++ opening :: (name.toList ++ closing :: [' ']))
      name.toList :=
    .intro hsheet isGap_blank hopening hnonempty hname' hclosing isGap_blank
  have htext : error.toList = front.toList ++ before ++
      ((sheet ++ [' '] ++ opening :: (name.toList ++ closing :: [' '])) ++ verdict.toList) ++
        back.toList := by
    simp [heq, hparts]
  exact find?_of_quoted htext (unquoted_append.2 ⟨hfront, hbefore⟩) hback hwords hquoted
    (phrase_of_mem_verdicts hwords hphrase) hname

end Sentence

end MissingSheet

namespace Patch

theorem waitFor_eq (id : StepId) (s : Step) :
    waitFor id s = { s with dependsOn := (waitFor id s).dependsOn } := by
  unfold waitFor
  split <;> rfl

end Patch

namespace Repair

open MissingSheet

variable {error front word name verdict back : String} {opening closing : Char}

/-- There are two new steps: one makes a sheet, the other is the failed step again, waits for the sheet
besides, and stands in for the failed step. -/
structure MakesSheet (r : Repair) (failed : Step) (sheet : String) (create again : Step) : Prop where
  newSteps : r.newSteps = [create, again]
  action : create.action = Action.createSheet
  isWrite : create.isWrite = true
  parameters : create.parameters = .object [("sheet", .str sheet)]
  dependsOn_create : create.dependsOn = []
  status : create.status = .pending
  again_eq : again = { failed with
    id := again.id
    status := .pending
    description := again.description
    dependsOn := again.dependsOn }
  dependsOn_again : ∀ d, d ∈ again.dependsOn ↔ d ∈ failed.dependsOn ∨ d = create.id
  replacement : r.replacement = some again.id

theorem makesSheet_addPrerequisite {m : Mint} {failed : Step} {sheet : String} {r : Repair}
    (hpatch : r.patch = Patch.addPrerequisite m failed error) (hsheet : find? error = some sheet) :
    ∃ create again, r.MakesSheet failed sheet create again := by
  have hsteps : r.patch = _ := hpatch.trans (by rw [Patch.addPrerequisite, hsheet])
  refine ⟨_, _, congrArg Patch.steps hsteps, rfl, rfl, rfl, rfl, rfl, ?_, fun d => ?_,
    congrArg Patch.replacement hsteps⟩
  · rw [Patch.id_waitFor, Patch.waitFor_eq, Patch.again]
  · rw [Patch.mem_dependsOn_waitFor, Patch.again]

theorem errorText_of_ofText (context : RepairContext) (h : Failure.ofText error = .missing) :
    context.errorText error = error := by
  unfold RepairContext.errorText
  rw [if_neg]
  intro hblank
  have hnone : Failure.ofText error = .unexplained := by
    unfold Failure.ofText
    exact if_pos hblank
  rw [hnone] at h
  cases h

/-- If the error says of one sheet in quotes that it is missing, the repair makes that sheet, and
then the step again. -/
theorem ofStep_makesSheet (settings : Settings) (token : String) (failed : Step)
    (context : RepairContext) (hreport : Reports error front word opening name closing verdict back)
    (hname : Text.trim name.toList ≠ []) (hmissing : Failure.ofText error = .missing)
    (hbelow : context.count < settings.maxRepairs) :
    ∃ create again, (ofStep settings token failed error context).MakesSheet failed
      (Text.trimmed name) create again := by
  have hstrategy : (ofStep settings token failed error context).strategy = .addPrerequisite := by
    rw [strategy_ofStep, errorText_of_ofText context hmissing, hmissing, Strategy.choose,
      if_neg (Nat.not_le.2 hbelow), Strategy.below]
  have hpatch : (ofStep settings token failed error context).patch =
      Patch.addPrerequisite ⟨context.count + 1, token⟩ failed error := by
    rw [patch_ofStep, hstrategy, errorText_of_ofText context hmissing, Patch.ofStrategy]
  exact makesSheet_addPrerequisite hpatch (hreport.find?_eq hname)

/-- The name has blanks around it and the word `sheet` in it. -/
theorem ofStep_makesSheet_price_list :
    let error := "Step s3: WorkSheet \" Price sheet 2 \" does not exist. Try again"
    Reports error "Step s3: " "WorkSheet" '\x22' " Price sheet 2 " '\x22' "does not exist" ". Try again" ∧
      Text.trim " Price sheet 2 ".toList ≠ [] ∧ Failure.ofText error = .missing ∧
      ∃ create again, (ofStep {} "TOKEN" priceLookup error ⟨1, [], none⟩).MakesSheet priceLookup
        "Price sheet 2" create again := by
  intro error
  have hreport : Reports error "Step s3: " "WorkSheet" '\x22' " Price sheet 2 " '\x22' "does not exist"
      ". Try again" :=
    ⟨rfl, by decide +kernel, rfl, rfl, by decide +kernel, by decide +kernel, by decide +kernel,
      by decide +kernel⟩
  have hname : Text.trim " Price sheet 2 ".toList ≠ [] := by decide +kernel
  have hmissing : Failure.ofText error = .missing := by decide +kernel
  have htrimmed : Text.trimmed " Price sheet 2 " = "Price sheet 2" := by decide +kernel
  have hmakes := ofStep_makesSheet {} "TOKEN" priceLookup ⟨1, [], none⟩ hreport hname hmissing
    (by decide)
  rw [htrimmed] at hmakes
  exact ⟨hreport, hname, hmissing, hmakes⟩

end Repair

end WorkbookPlan
