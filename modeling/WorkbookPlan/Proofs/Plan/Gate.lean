import WorkbookPlan.Plan.Build
import WorkbookPlan.Proofs.Draft.Formulas
import WorkbookPlan.Proofs.Verdict.Check

/-! What is built from a request: a plan that only asks, just if there is nothing to build or an
action that is not allowed; else a plan that is ready, whose risks are high just if its check did
not pass. -/
namespace WorkbookPlan

namespace Question

/-- There is always something to read. -/
theorem message_ne_empty (obstacle : Obstacle) (questions : List Question) :
    message obstacle questions ≠ "" := by
  rw [message, String.intercalate_cons_cons]
  intro hempty
  have hchars := congrArg String.toList hempty
  simp at hchars

end Question

namespace Check

variable {steps : List Step} {schema : Option Schema} {owners : Owners}
  {review : Option SchemaReview}

theorem passed_eq_false_iff (steps : List Step) (schema : Option Schema) (owners : Owners)
    (review : Option SchemaReview) :
    let v := run steps schema owners review
    v.passed = false ↔ v.missing ≠ [] ∨ v.cycles ≠ [] ∨ v.unresolved ≠ [] := by
  intro v
  have hsettled : v.passed = (v.missing.isEmpty && v.cycles.isEmpty && v.unresolved.isEmpty) := by
    simp only [v, run_eq]
  rw [hsettled]
  simp only [Bool.and_eq_false_iff, List.isEmpty_eq_false_iff, or_assoc]

end Check

namespace Risk

variable {settings : Settings} {steps : List Step} {v : Verdict} {task : String}

/-- The rules on lengths, words and overwriting never find a high risk. -/
theorem level_of_mem_assess {r : Risk} (h : r ∈ assess settings steps v task)
    (hlevel : r.level = .high) : ofStructure v = some r ∨ ofReferences v = some r := by
  obtain ⟨rule, hrule, hr⟩ := List.mem_filterMap.1 h
  dsimp only [id] at hr
  subst hr
  have hmedium : ∀ {c : Prop} [Decidable c] {description mitigation : String},
      some r ≠ if c then none else some ⟨.medium, description, mitigation⟩ := by
    intro c _ _ _ h
    split at h
    · cases h
    · cases Option.some.inj h
      cases hlevel
  simp only [List.mem_cons, List.not_mem_nil, or_false] at hrule
  rcases hrule with h | h | h | h | h | h
  · exact .inl h.symm
  · exact .inr h.symm
  · exact absurd h hmedium
  · exact absurd h hmedium
  · rw [ofTask] at h
    split at h
    · cases Option.some.inj h
      cases hlevel
    · cases h
  · exact absurd h hmedium

theorem exists_high_iff (settings : Settings) (steps : List Step) (v : Verdict) (task : String) :
    (∃ r ∈ assess settings steps v task, r.level = .high) ↔
      v.missing ≠ [] ∨ v.cycles ≠ [] ∨ v.unresolved ≠ [] := by
  constructor
  · rintro ⟨r, hr, hlevel⟩
    rcases level_of_mem_assess hr hlevel with h | h
    · by_contra hnone
      push Not at hnone
      simp [ofStructure, hnone.1, hnone.2.1] at h
    · refine .inr (.inr fun hnone => ?_)
      simp [ofReferences, hnone] at h
  · intro h
    rw [← or_assoc] at h
    rcases h with h | h
    · have hcount : v.missing.length + v.cycles.length ≠ 0 := by simpa [imp_iff_not_or] using h
      exact ⟨_, List.mem_filterMap.2 ⟨_, List.mem_cons_self, if_neg hcount⟩, rfl⟩
    · have hcount : v.unresolved.length ≠ 0 := by simpa using h
      exact ⟨_, List.mem_filterMap.2 ⟨_, List.mem_cons_of_mem _ List.mem_cons_self, if_neg hcount⟩,
        rfl⟩

end Risk

namespace Draft

variable {settings : Settings} {schema : Schema}

/-- Each table has a step, and so has each entry of the calculation chain. -/
theorem steps_ofSchema_eq_nil_iff (settings : Settings) (schema : Schema) :
    (ofSchema settings schema).steps = [] ↔ schema.tables = [] ∧ schema.calculationChain = [] := by
  constructor
  · intro hnone
    constructor
    · refine List.eq_nil_iff_forall_not_mem.2 fun t ht => ?_
      obtain ⟨first, hfirst⟩ : ∃ first, schema.table? t.name = some first :=
        Option.isSome_iff_exists.1 (List.find?_isSome.2 ⟨t, ht, by simp⟩)
      have hordered : first ∈ schema.orderedTables :=
        Schema.mem_orderedTables.2 (Schema.name_of_table? hfirst ▸ hfirst)
      obtain ⟨create, headers, hbuilt⟩ := (structured_sheetsOf schema).built first hordered
      have hmem := sheetsOf_subset settings hbuilt.mem_create
      rw [hnone] at hmem
      cases hmem
    · refine List.eq_nil_iff_forall_not_mem.2 fun c hc => ?_
      obtain ⟨k, hk⟩ := List.mem_iff_getElem?.1 hc
      have hmem := formulaAt_mem settings hk
      rw [hnone] at hmem
      cases hmem
  · rintro ⟨htables, hchain⟩
    have hnone : schema.orderedTables = [] := by
      refine List.eq_nil_iff_forall_not_mem.2 fun t ht => ?_
      have hfound := Schema.mem_orderedTables.1 ht
      rw [Schema.table?, htables] at hfound
      cases hfound
    simp [ofSchema, hnone, hchain, withVerification, formulaSteps]

theorem obstacle?_eq_none_iff {schema : Option Schema} {d : Draft} :
    d.obstacle? settings schema = none ↔
      d.steps ≠ [] ∧ ∀ s ∈ d.steps, s.action ∉ settings.disallowedActions := by
  unfold obstacle?
  split
  · next h => simp_all [isEmpty]
  · next h => simp_all [isEmpty]

/-- Nothing is to be built: there is no schema, or one without tables and computations. Or a step
has an action that is not allowed. -/
def Hindered (settings : Settings) (schema : Option Schema) : Prop :=
  schema = none ∨
    (∃ s, schema = some s ∧ s.tables = [] ∧ s.calculationChain = []) ∨
    ∃ s ∈ (ofSchema? settings schema).steps, s.action ∈ settings.disallowedActions

theorem hindered_iff (settings : Settings) (schema : Option Schema) :
    Hindered settings schema ↔
      (ofSchema? settings schema).obstacle? settings schema ≠ none := by
  rw [ne_eq, obstacle?_eq_none_iff]
  cases schema with
  | none => simp [Hindered, ofSchema?]
  | some schema =>
    simp only [Hindered, ofSchema?, reduceCtorEq, Option.some.injEq, exists_eq_left', false_or,
      ← steps_ofSchema_eq_nil_iff settings schema]
    by_cases hsteps : (ofSchema settings schema).steps = [] <;> simp [hsteps]

theorem ordered_ofSchema? (settings : Settings) (schema : Option Schema) :
    Ordered (ofSchema? settings schema).steps := by
  cases schema with
  | none => exact .nil
  | some schema => exact (sound_ofSchema settings schema).ordered

end Draft

namespace Plan

/-- The plan does nothing but ask for more detail. -/
structure Asks (p : Plan) : Prop where
  steps : p.steps = []
  needsClarification : p.needsClarification = true
  phase : p.phase = .awaitingClarification
  question : ∃ text, p.question = some text ∧ text ≠ ""

/-- A plan only asks just if nothing is to be built or an action is not allowed. Any other plan is
ready, and has a high risk just if its check did not pass. -/
theorem build_asks_iff (settings : Settings) (request : PlanRequest) (schema : Option Schema)
    (review : Option SchemaReview) :
    let p := build settings request schema review
    (p.Asks ↔ Draft.Hindered settings schema) ∧
      (¬ Draft.Hindered settings schema →
        p.phase = .ready ∧ p.needsClarification = false ∧
          p.steps = (Draft.ofSchema? settings schema).steps ∧ p.steps ≠ [] ∧
          (∀ s ∈ p.steps, s.status = .pending ∧ s.action ∉ settings.disallowedActions) ∧
          p.verdict.missing = [] ∧ p.verdict.cycles = review.elim [] (·.cycles) ∧
          ((∃ r ∈ p.risks, r.level = .high) ↔ p.verdict.passed = false)) := by
  intro p
  rw [Draft.hindered_iff]
  cases hobstacle : (Draft.ofSchema? settings schema).obstacle? settings schema with
  | some obstacle =>
    have hp : p = asking request.task request.taskKind
        (Question.ask settings obstacle request.task) := by
      simp only [p, build, hobstacle]
    rw [hp]
    refine ⟨iff_of_true ⟨rfl, rfl, rfl, _, rfl, Question.message_ne_empty _ _⟩ (by simp), ?_⟩
    exact fun h => absurd (by simp) h
  | none =>
    have hp : p = ofDraft settings request schema review (Draft.ofSchema? settings schema) := by
      simp only [p, build, hobstacle]
    rw [hp]
    obtain ⟨hsome, hallowed⟩ := Draft.obstacle?_eq_none_iff.1 hobstacle
    have hordered := Draft.ordered_ofSchema? settings schema
    have hclean : StructureReport.ofSteps (Draft.ofSchema? settings schema).steps = {} :=
      StructureReport.ofSteps_eq_empty_of_earlier hordered.nodup_ids fun i s hs =>
        hordered.earlier hs
    let plan := ofDraft settings request schema review (Draft.ofSchema? settings schema)
    have hpending : ∀ s ∈ plan.steps, s.status = .pending := by
      intro s hs
      obtain ⟨_, hcontinues⟩ := hordered.exists_continues hs
      exact hcontinues.pending
    have hmissing : plan.verdict.missing = [] := by
      simp only [plan, ofDraft, Check.run_eq, hclean]
    have hcycles : plan.verdict.cycles = review.elim [] (·.cycles) := by
      simp only [plan, ofDraft, Check.run_eq, hclean]
      exact List.nil_append _
    have hhigh : (∃ r ∈ plan.risks, r.level = .high) ↔ plan.verdict.passed = false :=
      (Risk.exists_high_iff ..).trans (Check.passed_eq_false_iff ..).symm
    refine ⟨iff_of_false (fun hasks => hsome hasks.steps) (by simp), fun _ => ?_⟩
    exact ⟨rfl, rfl, rfl, hsome, fun s hs => ⟨hpending s hs, hallowed s hs⟩, hmissing, hcycles,
      hhigh⟩

end Plan

end WorkbookPlan
