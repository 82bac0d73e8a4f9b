import WorkbookPlan.Proofs.Repair.Patch
import WorkbookPlan.Proofs.Step.Footprint

/-! What a repair makes out of a failed step: steps that follow it, with its action and inside of
what it writes, the creation of a sheet, and steps that clear what it may have written. -/
namespace WorkbookPlan

open Sheet

namespace Step

variable {s t u : Step}

/-- The step has the action and the parameters of another one, but perhaps another formula and
another range, and writes inside of it. -/
structure Follows (t s : Step) : Prop where
  action : t.action = s.action
  isWrite : t.isWrite = s.isWrite
  param : ∀ k, k ≠ "logicalFormula" → k ≠ "range" → t.param? k = s.param? k
  range : (t.param? "range").isSome ∨
    t.param? "range" = s.param? "range" ∧ t.preview = s.preview
  inside : t.Inside s

/-- Name, description, place and dependencies do not matter. -/
theorem follows_of_eq (haction : t.action = s.action) (hwrite : t.isWrite = s.isWrite)
    (hparameters : t.parameters = s.parameters) (hpreview : t.preview = s.preview) :
    t.Follows s := by
  have hparam : t.param? = s.param? := by
    funext k
    rw [param?, param?, hparameters]
  have hrange : t.writtenRange = s.writtenRange := by
    rw [writtenRange, writtenRange, hparam, hpreview]
  refine ⟨haction, hwrite, fun k _ _ => by rw [hparam], .inr ⟨by rw [hparam], hpreview⟩, ?_⟩
  exact inside_of_eq (footprint?_congr hwrite (congrFun hparam "sheet") (by rw [hrange]))

theorem Follows.refl (s : Step) : s.Follows s :=
  follows_of_eq rfl rfl rfl rfl

theorem Follows.trans (hts : t.Follows s) (hsu : s.Follows u) : t.Follows u where
  action := hts.action.trans hsu.action
  isWrite := hts.isWrite.trans hsu.isWrite
  param k hk hk' := (hts.param k hk hk').trans (hsu.param k hk hk')
  range := by
    rcases hts.range with hsome | ⟨hrange, hpreview⟩
    · exact .inl hsome
    · rw [hrange, hpreview]
      exact hsu.range
  inside := hts.inside.trans hsu.inside

theorem Follows.sheet? (h : t.Follows s) : t.sheet? = s.sheet? :=
  h.param "sheet" (by decide) (by decide)

theorem param?_setParam_of_ne {k key : String} (h : k ≠ key) (s : Step) (value : Json) :
    (s.setParam key value).param? k = s.param? k := by
  have hne : (k == key) = false := by simpa using h
  rw [param?, param?, Json.textAt?, Json.textAt?, setParam]
  cases s.parameters with
  | obj fields => rw [Json.get?_set_obj_of_ne h]
  | _ => simp [Json.set, Json.get?, List.lookup_cons, hne]

theorem param?_setParam_self (s : Step) (key value : String) :
    (s.setParam key (.str value)).param? key = some value := by
  rw [param?, Json.textAt?, setParam, Json.get?_set_self]
  rfl

/-- The preview of a step that names a column and no range is the column below its header. -/
def Previews (s : Step) : Prop :=
  ∀ column, s.param? "range" = none → s.param? "column" = some column →
    s.preview.map (·.affectedRange) = some (Draft.columnBody column)

/-- Where the step writes can be told from it: a step that writes names its sheet, and any other
step names none. -/
structure Legible (s : Step) : Prop where
  previews : s.Previews
  sheet : s.sheet?.isSome = s.isWrite

theorem Follows.legible (h : t.Follows s) (hs : s.Legible) : t.Legible where
  previews column hrange hcolumn := by
    rcases h.range with hsome | ⟨hsame, hpreview⟩
    · rw [hrange] at hsome
      cases hsome
    · rw [hpreview]
      exact hs.previews column (hsame ▸ hrange)
        (h.param "column" (by decide) (by decide) ▸ hcolumn)
  sheet := by rw [h.sheet?, h.isWrite, hs.sheet]

end Step

namespace Patch

open Step

/-- What a new step can be. -/
inductive Offspring (failed : Step) : Step → Prop where
  | copy {t : Step} : t.Follows failed → Offspring failed t
  | creation (id : StepId) (sheet : String) : Offspring failed (createSheet failed id sheet)
  | clearing (id : StepId) : Offspring failed (clearRange failed id)

variable {m : Mint} {failed : Step} {parts : Nat}

theorem follows_again (failed : Step) (id : StepId) (note : String) :
    (again failed id note).Follows failed :=
  follows_of_eq rfl rfl rfl rfl

theorem follows_mapFormula (change : String → Option String) (s : Step) :
    (mapFormula change s).Follows s := by
  unfold mapFormula
  split
  · exact .refl s
  · next formula _ =>
    have hsheet : (s.setParam "logicalFormula" (.str formula)).sheet? = s.sheet? :=
      param?_setParam_of_ne (by decide) s _
    have hrange : (s.setParam "logicalFormula" (.str formula)).param? "range" =
        s.param? "range" := param?_setParam_of_ne (by decide) s _
    refine ⟨rfl, rfl, fun k hk _ => param?_setParam_of_ne hk s _, .inr ⟨hrange, rfl⟩, ?_⟩
    refine inside_of_eq (footprint?_congr rfl hsheet ?_)
    rw [Step.writtenRange, Step.writtenRange, hrange]
    rfl

theorem follows_waitFor (id : StepId) (s : Step) : (waitFor id s).Follows s := by
  unfold waitFor
  split
  · exact .refl s
  · exact follows_of_eq rfl rfl rfl rfl

/-- A range with a sheet in front is read as the range. -/
theorem parse_qualified (sheet : Option (List Char)) {a : Area} (h : a.OnSheet) :
    Area.parse (qualified sheet a.text) = .ok a := by
  cases sheet with
  | none => exact Area.parse_text h
  | some sheet =>
    have hchars : (qualified (some sheet) a.text).toList = sheet ++ '!' :: a.text.toList := by
      simp [qualified]
    rw [Area.parse, hchars, Area.read_append sheet (Area.isPlain_text a).notMem,
      Area.readLocal_text h]

theorem of_mem_pieces {area : Area} (h : area ∈ (pieces failed parts).2) :
    ∃ range whole, failed.param? "range" = some range ∧ Area.parse range = .ok whole ∧
      area.OnSheet ∧ area.Within whole := by
  unfold pieces at h
  split at h
  · cases h
  · next range hrange =>
    split at h
    · cases h
    · next whole hwhole =>
      obtain ⟨honSheet, hwithin⟩ := Area.of_mem_splitRows (Area.onSheet_of_parse hwhole) h
      exact ⟨range, whole, hrange, hwhole, honSheet, hwithin⟩

/-- A part of a step writes inside of it. -/
theorem follows_part (m : Mint) (sheet : Option (List Char)) (total : Nat) {piece : Area × Nat}
    (hmem : piece.1 ∈ (pieces failed parts).2) :
    (part m failed sheet total piece).Follows failed := by
  obtain ⟨range, whole, hrange, hwhole, honSheet, hwithin⟩ := of_mem_pieces hmem
  have hparam : ∀ k, k ≠ "range" → (part m failed sheet total piece).param? k = failed.param? k :=
    fun k hk => param?_setParam_of_ne hk _ _
  have hpart : (part m failed sheet total piece).param? "range" =
      some (qualified sheet piece.1.text) := param?_setParam_self _ _ _
  refine ⟨rfl, rfl, fun k _ hk => hparam k hk, .inl (by rw [hpart, Option.isSome_some]), ?_⟩
  intro name area harea
  rw [footprint?_of_range hpart (parse_qualified sheet honSheet)] at harea
  rw [footprint?_of_range hrange hwhole]
  have hsheet : (part m failed sheet total piece).sheet? = failed.sheet? :=
    hparam "sheet" (by decide)
  have hwrite : (part m failed sheet total piece).isWrite = failed.isWrite := rfl
  rw [hsheet, hwrite] at harea
  split at harea
  · next h =>
    obtain ⟨_, hname, hpair⟩ := Option.map_eq_some_iff.1 harea
    cases hpair
    exact ⟨.cells whole, by rw [if_pos h, hname, Option.map_some], .cells hwithin⟩
  · cases harea

theorem offspring_of_mem {error : String} {strategy : Strategy} {t : Step}
    (h : t ∈ (ofStrategy m failed error parts strategy).steps) : Offspring failed t := by
  cases built_of_mem h with
  | copy id note => exact .copy (follows_again failed id note)
  | reformulated change id note =>
    exact .copy ((follows_mapFormula change _).trans (follows_again failed id note))
  | waiting other id note =>
    exact .copy ((follows_waitFor other _).trans (follows_again failed id note))
  | piece sheet total hpiece => exact .copy (follows_part m sheet total hpiece)
  | creation id _ => exact .creation id _
  | clearing id => exact .clearing id

theorem param?_clearRange (failed : Step) (id : StepId) :
    (clearRange failed id).sheet? = some (failed.sheet?.getD "") ∧
      (clearRange failed id).param? "range" = some (writtenRange failed) ∧
      (clearRange failed id).param? "rollbackOf" = some failed.id := by
  refine ⟨?_, ?_, ?_⟩ <;>
    simp [clearRange, Step.sheet?, param?, Json.textAt?, Json.get?_object, List.lookup_cons,
      Json.str?]

/-- The range to clear is the range that is written, unless the step names no range at all. -/
theorem parse_writtenRange (hpreviews : failed.Previews) :
    Area.parse (writtenRange failed) = Area.parse failed.writtenRange ∨
      failed.param? "range" = none ∧ failed.preview = none := by
  rw [writtenRange, Step.writtenRange]
  cases hrange : failed.param? "range" with
  | some range => exact .inl (Area.parse_localPart range)
  | none =>
    cases hcolumn : failed.param? "column" with
    | some column =>
      rw [hpreviews column hrange hcolumn]
      exact .inl rfl
    | none =>
      cases failed.preview with
      | some p => exact .inl rfl
      | none => exact .inr ⟨rfl, rfl⟩

theorem sheet?_clearRange (hfailed : failed.Legible) (hwrite : failed.isWrite = true)
    (id : StepId) : (clearRange failed id).sheet? = failed.sheet? := by
  obtain ⟨sheet, hsheet⟩ := Option.isSome_iff_exists.1 (hfailed.sheet.trans hwrite)
  rw [(param?_clearRange failed id).1, hsheet, Option.getD_some]

theorem writtenRange_clearRange (failed : Step) (id : StepId) :
    (clearRange failed id).writtenRange = writtenRange failed := by
  rw [Step.writtenRange, (param?_clearRange failed id).2.1]
  rfl

/-- A step that writes is cleared where it writes, and nowhere else. -/
theorem inside_clearRange (hfailed : failed.Legible) (hwrite : failed.isWrite = true)
    (id : StepId) : (clearRange failed id).Inside failed := by
  have hsame := sheet?_clearRange hfailed hwrite id
  have hwritten := writtenRange_clearRange failed id
  rcases parse_writtenRange hfailed.previews with hparse | ⟨hrange, hpreview⟩
  · exact inside_of_eq (footprint?_congr hwrite.symm hsame (by rw [hwritten, hparse]))
  · intro name area harea
    obtain ⟨-, hname⟩ := sheet?_of_footprint? harea
    refine ⟨.wholeSheet, ?_, .wholeSheet area⟩
    rw [footprint?, if_pos hwrite, ← hsame, hname, Step.writtenRange, hrange, hpreview]
    rfl

theorem legible_createSheet (failed : Step) (id : StepId) (sheet : String) :
    (createSheet failed id sheet).Legible where
  previews _ _ hcolumn := nomatch hcolumn
  sheet := rfl

theorem legible_clearRange (failed : Step) (id : StepId) : (clearRange failed id).Legible where
  previews column hrange _ := by
    rw [(param?_clearRange failed id).2.1] at hrange
    cases hrange
  sheet := by
    rw [(param?_clearRange failed id).1]
    rfl

theorem Offspring.legible {t : Step} (h : Offspring failed t) (hfailed : failed.Legible) :
    t.Legible := by
  cases h with
  | copy hfollows => exact hfollows.legible hfailed
  | creation id sheet => exact legible_createSheet failed id sheet
  | clearing id => exact legible_clearRange failed id

end Patch

namespace Repair

variable {settings : Settings} {token : String} {failed : Step} {error : String}
  {context : RepairContext} {t : Step}

theorem offspring_of_mem_newSteps
    (h : t ∈ (ofStep settings token failed error context).newSteps) : Patch.Offspring failed t :=
  Patch.offspring_of_mem h

end Repair

end WorkbookPlan
