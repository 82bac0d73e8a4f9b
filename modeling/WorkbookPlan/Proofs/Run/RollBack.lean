import WorkbookPlan.Proofs.Draft.Columns
import WorkbookPlan.Proofs.Run.Calculation
import WorkbookPlan.Proofs.Run.Origin

/-! What a run clears. Each step that clears a range stands for a step that failed, perhaps by way
of others that were to clear and failed too, and clears inside of what the failed step writes. What
others have done in the same place is cleared with it. -/
namespace WorkbookPlan

open Step Relation

namespace Step

theorem follows_withStatus (s : Step) (status : Status) : (s.withStatus status).Follows s :=
  follows_of_eq rfl rfl rfl rfl

theorem follows_placed (s : Step) (order : Nat) : (s.placed order).Follows s :=
  follows_of_eq rfl rfl rfl rfl

/-- The step goes back to one of the first steps, or to the creation of a sheet that a failed step
needs. -/
def Stems (first : List Step) (s : Step) : Prop :=
  ∃ u, (u ∈ first ∨ ∃ failed id sheet, u = Patch.createSheet failed id sheet) ∧ s.Follows u

end Step

namespace Plan

variable {settings : Settings} {tokens : Nat → String} {p q : Plan}

/-- The first step is there to clear what the second, which failed, may have written. In between may
be steps that were there for the same and failed. -/
inductive RollsBack (p : Plan) : Step → Step → Prop where
  | direct {s t} : s.param? "rollbackOf" = some t.id → t ∈ p.steps → t.status = .failed →
      t.action ≠ Action.clearRange → RollsBack p s t
  | through {s t u} : s.param? "rollbackOf" = some t.id → t ∈ p.steps → t.status = .failed →
      t.action = Action.clearRange → RollsBack p t u → RollsBack p s u

theorem RollsBack.move {s t : Step} (h : p.RollsBack s t) (hmove : Move settings tokens p q)
    (hp : p.Tidy tokens) : q.RollsBack s t := by
  induction h with
  | direct hof ht hfailed haction =>
    exact .direct hof (hmove.mem_of_failed hp ht hfailed) hfailed haction
  | through hof ht hfailed haction _ ih =>
    exact .through hof (hmove.mem_of_failed hp ht hfailed) hfailed haction ih

theorem RollsBack.of_param {s s' t : Step} (h : p.RollsBack s t)
    (hparam : s'.param? "rollbackOf" = s.param? "rollbackOf") : p.RollsBack s' t := by
  cases h with
  | direct hof ht hfailed haction => exact .direct (hparam.trans hof) ht hfailed haction
  | through hof ht hfailed haction hrest =>
    exact .through (hparam.trans hof) ht hfailed haction hrest

/-- What is cleared was failed, and is no clearing itself. -/
theorem RollsBack.failed {s t : Step} (h : p.RollsBack s t) :
    t ∈ p.steps ∧ t.status = .failed ∧ t.action ≠ Action.clearRange := by
  induction h with
  | direct _ ht hfailed haction => exact ⟨ht, hfailed, haction⟩
  | through _ _ _ _ _ ih => exact ih

/-- The step clears for a step that failed: inside of what this one writes, or, if it writes
nothing, on the sheet without a name. -/
def Clears (p : Plan) (s : Step) : Prop :=
  ∃ t, p.RollsBack s t ∧ (t.isWrite = true → s.Inside t) ∧
    (t.isWrite = false → s.sheet? = some "")

theorem Clears.follows {s s' : Step} (h : p.Clears s) (hs : s'.Follows s) : p.Clears s' := by
  obtain ⟨t, hrolls, hinside, hnone⟩ := h
  exact ⟨t, hrolls.of_param (hs.param _ (by decide) (by decide)),
    fun hwrite => hs.inside.trans (hinside hwrite), fun hwrite => hs.sheet?.trans (hnone hwrite)⟩

theorem Clears.move {s : Step} (h : p.Clears s) (hmove : Move settings tokens p q)
    (hp : p.Tidy tokens) : q.Clears s := by
  obtain ⟨t, hrolls, hwhere⟩ := h
  exact ⟨t, hrolls.move hmove hp, hwhere⟩

/-- A step that a repair puts in to clear for a failed step. -/
theorem clears_clearRange {failed : Step} (hmem : failed ∈ q.steps)
    (hstatus : failed.status = .failed) (hlegible : failed.Legible)
    (hclears : failed.action = Action.clearRange → q.Clears failed ∧ failed.isWrite = true)
    (id : StepId) : q.Clears (Patch.clearRange failed id) := by
  obtain ⟨hsheet, -, hof⟩ := Patch.param?_clearRange failed id
  by_cases haction : failed.action = Action.clearRange
  · obtain ⟨⟨t, hrolls, hinside, hnone⟩, hwrite⟩ := hclears haction
    refine ⟨t, .through hof hmem hstatus haction hrolls, fun ht => ?_, fun ht => ?_⟩
    · exact (Patch.inside_clearRange hlegible hwrite id).trans (hinside ht)
    · rw [hsheet, hnone ht, Option.getD_some]
  · refine ⟨failed, .direct hof hmem hstatus haction, fun hwrite => ?_, fun hwrite => ?_⟩
    · exact Patch.inside_clearRange hlegible hwrite id
    · have hnone : failed.sheet? = none := by
        have hsome := hlegible.sheet
        rw [hwrite] at hsome
        exact Option.not_isSome_iff_eq_none.1 (by simp [hsome])
      rw [hsheet, hnone, Option.getD_none]

theorem Reaches.legible (h : Reaches settings tokens p q) (hp : p.Tidy tokens)
    (hall : ∀ s ∈ p.steps, s.Legible) : ∀ s ∈ q.steps, s.Legible :=
  h.forall_steps hp (fun s status hs => (follows_withStatus s status).legible hs)
    (fun _ t order hs ht _ => (follows_placed t order).legible (ht.legible hs)) hall

theorem Reaches.stems (h : Reaches settings tokens p q) (hp : p.Tidy tokens) :
    ∀ s ∈ q.steps, s.action ≠ Action.clearRange → s.Stems p.steps := by
  refine h.forall_steps hp (fun s status hs haction => ?_) (fun s t order hs ht _ haction => ?_)
    fun s hs _ => ⟨s, .inl hs, .refl s⟩
  · obtain ⟨u, hu, hfollows⟩ := hs haction
    exact ⟨u, hu, (follows_withStatus s status).trans hfollows⟩
  · cases ht with
    | copy hcopy =>
      obtain ⟨u, hu, hfollows⟩ := hs (hcopy.action ▸ haction)
      exact ⟨u, hu, ((follows_placed t order).trans hcopy).trans hfollows⟩
    | creation id sheet => exact ⟨_, .inr ⟨s, id, sheet, rfl⟩, follows_placed _ order⟩
    | clearing id => exact absurd rfl haction

/-- If a plan begins without steps that clear a range, each that comes in later clears for a step
that failed. -/
theorem Reaches.clears (h : Reaches settings tokens p q) (hp : p.Tidy tokens)
    (hlegible : ∀ s ∈ p.steps, s.Legible)
    (hnone : ∀ s ∈ p.steps, s.action ≠ Action.clearRange) :
    ∀ s ∈ q.steps, s.action = Action.clearRange → q.Clears s ∧ s.isWrite = true := by
  induction h with
  | refl => exact fun s hs haction => absurd haction (hnone s hs)
  | tail hreach hmove ih =>
    intro t ht haction
    have htidy := Reaches.tidy hreach hp
    cases hmove.origin htidy ht with
    | @old s status hs =>
      obtain ⟨hclears, hwrite⟩ := ih s hs haction
      exact ⟨(hclears.move hmove htidy).follows (follows_withStatus s status), hwrite⟩
    | @made s t order hs hfailed hoffspring =>
      have hclears : s.action = Action.clearRange → _ := fun haction =>
        And.imp_left (·.move hmove htidy) (ih s hs haction)
      cases hoffspring with
      | copy hcopy =>
        obtain ⟨hclears, hwrite⟩ := hclears (hcopy.action ▸ haction)
        exact ⟨hclears.follows ((follows_placed t order).trans hcopy), hcopy.isWrite.trans hwrite⟩
      | creation => exact absurd haction (by decide : Action.createSheet ≠ Action.clearRange)
      | clearing id =>
        have hlegible := (follows_withStatus s .failed).legible
          (Reaches.legible hreach hp hlegible s hs)
        refine ⟨(clears_clearRange hfailed rfl hlegible (fun haction => ?_) id).follows
          (follows_placed _ order), rfl⟩
        obtain ⟨hclears, hwrite⟩ := hclears haction
        exact ⟨hclears.follows (follows_withStatus s .failed), hwrite⟩

/-- A formula goes back to one of the draft. -/
theorem exists_formula_of_stems {schema : Schema} {f : Step}
    (hf : f.Stems (Draft.ofSchema settings schema).steps) (haction : f.action = Action.setFormula) :
    ∃ k c, f.Follows (Draft.formulaAt settings schema k c) := by
  obtain ⟨u, hu | ⟨failed, id, sheet, rfl⟩, hfollows⟩ := hf
  · have hsame := hfollows.action.symm.trans haction
    cases Draft.drafted_of_mem hu with
    | creation =>
      exact absurd hsame (by decide : Action.createSheet ≠ Action.setFormula)
    | heading => exact absurd hsame (by decide : Action.writeHeaders ≠ Action.setFormula)
    | @formula k c => exact ⟨k, c, hfollows⟩
    | rule => exact absurd hsame (by decide : Action.addValidation ≠ Action.setFormula)
    | verification => exact absurd hsame (by decide : Action.verifyResults ≠ Action.setFormula)
  · exact absurd (hfollows.action.symm.trans haction)
      (by decide : Action.createSheet ≠ Action.setFormula)

theorem action_of_stems {schema : Schema} {s : Step}
    (hs : s.Stems (Draft.ofSchema settings schema).steps) (hwrite : s.isWrite = false) :
    s.action = Action.verifyResults := by
  obtain ⟨u, hu | ⟨failed, id, sheet, rfl⟩, hfollows⟩ := hs
  · exact hfollows.action.trans
      (Draft.action_of_not_write hu (hfollows.isWrite.symm.trans hwrite))
  · exact nomatch hfollows.isWrite.symm.trans hwrite

/-- What touches the column of a formula is for the same column, or for the whole sheet. -/
theorem column_of_stems {schema : Schema} {s f : Step} {column : String}
    (hs : s.Stems (Draft.ofSchema settings schema).steps)
    (hf : f.Stems (Draft.ofSchema settings schema).steps) (haction : f.action = Action.setFormula)
    (hwidth : ∀ t ∈ schema.tables, t.fields.length ≤ Sheet.maxColumns)
    (hcolumn : f.param? "column" = some column) (h : s.collides f = true) :
    s.param? "column" = some column ∨
      s.param? "column" = none ∧
        (s.action = Action.createSheet ∨ s.action = Action.setFormula) := by
  obtain ⟨k, c, hformula⟩ := exists_formula_of_stems hf haction
  obtain ⟨u, hu, hfollows⟩ := hs
  have hparam : ∀ {a b : Step}, a.Follows b → a.param? "column" = b.param? "column" :=
    fun h => h.param _ (by decide) (by decide)
  rw [hparam hfollows, hfollows.action]
  rcases hu with hu | ⟨failed, id, sheet, rfl⟩
  · have hmeet : u.collides (Draft.formulaAt settings schema k c) = true := by
      have huf := collides_comm u f ▸ hfollows.inside.collides h
      exact collides_comm _ u ▸ hformula.inside.collides huf
    rw [hparam hformula, (Draft.param?_formulaAt settings schema k c).2.2] at hcolumn
    exact Draft.column_of_collides hwidth hu hcolumn hmeet
  · exact .inr ⟨rfl, .inl rfl⟩

variable {σ : Type _} {execute : Executor σ} {spare : Nat} {kept : σ}

/-- A step that clears a range clears inside of what some failed step writes, and so gets in the way
of a formula only if that step does. -/
theorem run_clears_within (settings : Settings) (schema : Schema) (config : Settings)
    (tokens : Nat → String) (execute : Executor σ) (spare : Nat) (kept : σ)
    (task taskKind : String) :
    let p := ofSteps task taskKind (Draft.ofSchema settings schema).steps
    (∃ r, p.run config tokens execute spare kept = some (.ok r) ∧
      p.run config tokens execute.recording spare (kept, []) = some (.ok (r.withCalls
        ((p.handovers config tokens execute spare kept).map (·.2))))) ∧
    ∀ h ∈ p.handovers config tokens execute spare kept, h.2.action = Action.clearRange →
      ∃ t, h.1.RollsBack h.2 t ∧
        (t.isWrite = false → t.action = Action.verifyResults ∧ h.2.sheet? = some "") ∧
        (t.isWrite = true → h.2.Inside t ∧
          ∀ f ∈ h.1.steps, f.action = Action.setFormula → h.2.collides f = true →
            t.collides f = true ∧
            ((∀ table ∈ schema.tables, table.fields.length ≤ Sheet.maxColumns) →
              ∀ column, f.param? "column" = some column →
                t.param? "column" = some column ∨
                t.param? "column" = none ∧
                  (t.action = Action.createSheet ∨ t.action = Action.setFormula))) := by
  intro p
  have htidy : p.Tidy tokens := Draft.tidy_ofSchema settings schema tokens task taskKind
  obtain ⟨-, r, -, -, hrun⟩ := run_ends config execute spare kept (p := p) rfl htidy
  refine ⟨⟨r, hrun, run_recording rfl hrun⟩, fun h hh haction => ?_⟩
  obtain ⟨hreach, hready⟩ := reaches_of_handover htidy hh
  have hopened : (p.opened kept).plan.Tidy tokens := tidy_opened htidy
  obtain ⟨⟨t, hrolls, hinside, hnone⟩, -⟩ := hreach.clears hopened
    (fun s hs => Draft.legible_of_mem hs) (fun s hs => Draft.action_ne_of_mem hs)
    h.2 (nextReady?_eq_some hready).1 haction
  obtain ⟨ht, -, htaction⟩ := hrolls.failed
  have hstems := hreach.stems hopened
  have htstems := hstems t ht htaction
  refine ⟨t, hrolls, fun hwrite => ⟨action_of_stems htstems hwrite, hnone hwrite⟩,
    fun hwrite => ⟨hinside hwrite, fun f hf hfaction hcollides => ?_⟩⟩
  have hmeets := (hinside hwrite).collides hcollides
  have hfstems := hstems f hf (hfaction ▸ (by decide : Action.setFormula ≠ Action.clearRange))
  exact ⟨hmeets, fun hwidth column hcolumn =>
    column_of_stems htstems hfstems hfaction hwidth hcolumn hmeets⟩

/-- The formula of a column is done, the rule for the column cannot be added, and so the column is
cleared. -/
theorem run_clears_completed :
    let schema : Schema :=
      { tables := [⟨"T", [⟨"a", some "=1", some (.oneOf ["x"]), none⟩], []⟩]
        calculationChain := [{ sheet := "T", field := "a", formula := "=1" }] }
    let p := ofSteps "t" "" (Draft.ofSchema {} schema).steps
    let execute : Executor Unit := fun s _ =>
      (if s.action = Action.addValidation then .failure "boom" else .ok .null, ())
    ∃ h ∈ p.handovers {} (fun _ => "TOKEN") execute 0 (), h.2.action = Action.clearRange ∧
      ∃ f ∈ h.1.steps, f.action = Action.setFormula ∧ f.status = .completed ∧
        h.2.collides f = true := by
  decide +kernel

end Plan

end WorkbookPlan
