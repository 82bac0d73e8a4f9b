import WorkbookPlan.Proofs.Draft.Headers
import WorkbookPlan.Proofs.Verdict.Check

/-! What the check says about the steps of a draft. It asks the owners that the draft has left, and only
then the schema; the two agree on which fields there are, so the schema is asked for nothing new. -/
namespace WorkbookPlan

/-- The field is there: the first table of the name has it, or an entry of the calculation chain is for
it. -/
def Schema.Provides (schema : Schema) (sheet field : String) : Prop :=
  (∃ t, schema.table? sheet = some t ∧ field ∈ t.fieldNames) ∨
    ∃ c ∈ schema.calculationChain, c.sheet = sheet ∧ c.field = field

theorem Schema.not_provides_iff {schema : Schema} {sheet field : String} :
    ¬ schema.Provides sheet field ↔
      (∀ t, schema.table? sheet = some t → field ∉ t.fieldNames) ∧
        ∀ c ∈ schema.calculationChain, (c.sheet, c.field) ≠ (sheet, field) := by
  simp [Provides]

/-- The step brings the field about: it sets the formula of an entry for it, or it writes the headers of
the table that has it. -/
inductive Step.Produces (schema : Schema) (sheet field : String) (s : Step) : Prop where
  | formula {c} : c ∈ schema.calculationChain → c.sheet = sheet → c.field = field →
      s.Computes schema c → Produces schema sheet field s
  | headers {t} : schema.table? sheet = some t → field ∈ t.fieldNames → s.Heads t →
      Produces schema sheet field s

namespace Draft

variable {settings : Settings} {schema : Schema} {sheet field : String} {id : StepId}

/-- The owners that are left know the fields that are there, and no others. -/
theorem isSome_owner?_iff_provides (settings : Settings) :
    ((ofSchema settings schema).owners.owner? sheet field).isSome ↔
      schema.Provides sheet field := by
  rw [(completes_ofSchema settings schema).owners, isSome_owner?_before_iff,
    Schema.exists_computesAt_iff, Schema.isSome_field?_iff]
  rfl

theorem exists_produces_of_owner? (h : (ofSchema settings schema).owners.owner? sheet field = some id) :
    ∃ s ∈ (ofSchema settings schema).steps, s.id = id ∧ s.Produces schema sheet field := by
  rw [(completes_ofSchema settings schema).owners, owner?_before_iff] at h
  cases h with
  | @formula j s hlast hs =>
    obtain ⟨c, hc, htarget⟩ := hlast.computes
    obtain ⟨rfl, rfl⟩ := Prod.mk.inj htarget
    rw [getElem?_formulaSteps settings hc] at hs
    obtain rfl := Option.some.inj hs
    exact ⟨_, formulaAt_mem settings hc, rfl,
      .formula (List.mem_of_getElem? hc) rfl rfl (computes_formulaAt settings schema j c)⟩
  | @headers s _ hfield hs haction hsheet =>
    obtain ⟨t, ht, hheads, -⟩ := heads_of_mem hs haction
    obtain rfl : t.name = sheet := Option.some.inj (hheads.sheet.symm.trans hsheet)
    have htable := Schema.mem_orderedTables.1 ht
    obtain ⟨u, hu, hname⟩ := Schema.isSome_field?_iff.1 hfield
    obtain rfl : t = u := Option.some.inj (htable.symm.trans hu)
    exact ⟨s, hs, rfl, .headers htable hname hheads⟩

/-- The name of a step stands for this step alone. -/
theorem eq_of_id_eq {s u : Step} (hs : s ∈ (ofSchema settings schema).steps)
    (hu : u ∈ (ofSchema settings schema).steps) (hid : u.id = s.id) : u = s :=
  List.inj_on_of_nodup_map (sound_ofSchema settings schema).ordered.nodup_ids hu hs hid

end Draft

namespace Check

open Draft

variable {settings : Settings} {schema : Schema} {source : String × String} {sheet field : String}
  {kind : ReferenceKind}

/-- On a draft it is the owner alone that decides. -/
theorem isResolved_fieldReference_ofSchema :
    (fieldReference schema (ofSchema settings schema).owners source sheet field kind).isResolved = true ↔
      schema.Provides sheet field := by
  have hfall : (schema.field? sheet field).any (!·.isComputed) = true →
      schema.Provides sheet field := fun h =>
    .inl (Schema.isSome_field?_iff.1 (Option.isSome_of_any h))
  unfold fieldReference
  dsimp only
  rw [Bool.or_eq_true, isSome_owner?_iff_provides]
  exact or_iff_left_of_imp hfall

/-- On the draft of a schema, a token is resolved to the one step that produces the field, unless
nothing provides it. -/
theorem run_ofSchema_resolves (settings : Settings) (schema : Schema)
    (review : Option SchemaReview) :
    let d := ofSchema settings schema
    let v := run d.steps (some schema) d.owners review
    ∀ c ∈ schema.calculationChain, ∀ token ∈ c.dependencies, ∀ sheet field,
      Names token sheet field → ∃ r, (∀ x, x ∈ v.references ∧ x.IsOf c token ↔ x = r) ∧
        (r ∈ v.unresolved ↔ r.isResolved = false) ∧
        (r.isResolved = false ↔ (∀ t, schema.table? sheet = some t → field ∉ t.fieldNames) ∧
          ∀ e ∈ schema.calculationChain, (e.sheet, e.field) ≠ (sheet, field)) ∧
        (r.isResolved = true → ∃ s ∈ d.steps, r.stepId = some s.id ∧
          (∀ u ∈ d.steps, u.id = s.id → u = s) ∧ s.Produces schema sheet field) := by
  intro d v c hc token htoken sheet field hnames
  let r := fieldReference schema d.owners (c.sheet, c.field) sheet field .formula
  have honly : ∀ x, x ∈ v.references ∧ x.IsOf c token ↔ x = r := fun x =>
    mem_references_and_isOf_iff hc htoken (splitToken?_eq_some_iff.2 hnames)
  have hresolved : r.isResolved = true ↔ schema.Provides sheet field :=
    isResolved_fieldReference_ofSchema
  have hlisted : r ∈ v.unresolved ↔ r.isResolved = false := by
    have hunresolved : v.unresolved = v.references.filter (!·.isResolved) := unresolved_run
    rw [hunresolved, List.mem_filter, and_iff_right ((honly r).2 rfl).1, Bool.not_eq_true']
  refine ⟨r, honly, hlisted, ?_, fun hr => ?_⟩
  · rw [← Bool.not_eq_true, hresolved]
    exact Schema.not_provides_iff
  · have howned : (d.owners.owner? sheet field).isSome :=
      (isSome_owner?_iff_provides settings).2 (hresolved.1 hr)
    obtain ⟨id, howner⟩ := Option.isSome_iff_exists.1 howned
    obtain ⟨s, hs, rfl, hproduces⟩ := exists_produces_of_owner? howner
    exact ⟨s, hs, howner, fun u hu => eq_of_id_eq hs hu, hproduces⟩

/-- The sheet of the second entry is none of the schema, and yet its field is there. The field `b` is one
of the second table of the name only, which is never made. -/
theorem run_ofSchema_resolves_shadowed :
    let schema : Schema :=
      { tables := [⟨"T", [⟨"a", none, none, none⟩], []⟩, ⟨"T", [⟨"b", none, none, none⟩], []⟩]
        calculationChain := [⟨"T", "a", "=b", ["T ! b", "U!x"]⟩, ⟨"U", "x", "=1", []⟩] }
    let c : Computation := ⟨"T", "a", "=b", ["T ! b", "U!x"]⟩
    let d := ofSchema {} schema
    let v := run d.steps (some schema) d.owners none
    (c ∈ schema.calculationChain ∧ c.dependencies = ["T ! b", "U!x"] ∧ Names "T ! b" "T" "b" ∧
        Names "U!x" "U" "x") ∧
      (∃ r ∈ v.unresolved, r.IsOf c "T ! b") ∧
      ∃ r ∈ v.references, r.IsOf c "U!x" ∧ r.isResolved = true ∧
        ∃ s ∈ d.steps, r.stepId = some s.id ∧ s.Produces schema "U" "x" := by
  intro schema c d v
  have hc : c ∈ schema.calculationChain := List.mem_cons_self
  have hb : Names "T ! b" "T" "b" := splitToken?_eq_some_iff.1 (by decide)
  have hx : Names "U!x" "U" "x" := splitToken?_eq_some_iff.1 (by decide)
  refine ⟨⟨hc, rfl, hb, hx⟩, ?_, ?_⟩
  · obtain ⟨r, honly, hlisted, hopen, -⟩ :=
      run_ofSchema_resolves {} schema none c hc "T ! b" (by simp [c]) "T" "b" hb
    exact ⟨r, hlisted.2 (hopen.2 (by decide)), ((honly r).2 rfl).2⟩
  · obtain ⟨r, honly, -, hopen, hproduced⟩ :=
      run_ofSchema_resolves {} schema none c hc "U!x" (by simp [c]) "U" "x" hx
    have hresolved : r.isResolved = true := by
      rw [← Bool.not_eq_false, hopen]
      decide
    obtain ⟨s, hs, hid, -, hproduces⟩ := hproduced hresolved
    obtain ⟨hr, hof⟩ := (honly r).2 rfl
    exact ⟨r, hr, hof, hresolved, s, hs, hid, hproduces⟩

end Check

end WorkbookPlan
