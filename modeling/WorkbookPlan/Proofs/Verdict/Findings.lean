import WorkbookPlan.Proofs.Draft.Ownership
import WorkbookPlan.Proofs.Verdict.Check

/-! What becomes of the findings of the check. Each token of the calculation chain and each table that
another is fed from has its finding; each finding that is no resolved reference has its warning, which
says what is wrong. -/
namespace WorkbookPlan

namespace Schema

def tokens (s : Schema) : List (Computation × String) :=
  s.calculationChain.flatMap fun c => c.dependencies.map (c, ·)

/-- The tables that others are fed from, each behind the table that it feeds. -/
def feeds (s : Schema) : List (Table × String) :=
  s.tables.flatMap fun t => t.dependsOn.map (t, ·)

variable {s : Schema} {sheet field : String}

theorem isComputed_of_field? {table : Table} {f : Field} (htable : s.table? sheet = some table)
    (hfield : table.field? field = some f)
    (h : (s.field? sheet field).any (!·.isComputed) = false) : f.isComputed = true := by
  rw [field?, htable, Option.bind_some, hfield] at h
  simpa using h

end Schema

/-- Where a reference comes from: a field, or a table as a whole. -/
def Reference.origin (r : Reference) : String :=
  if r.sourceField.isEmpty then r.sourceSheet else r.sourceSheet ++ "!" ++ r.sourceField

/-- The reference stands for a table that another is fed from. -/
structure Reference.IsFeed (t : Table) (name : String) (r : Reference) : Prop where
  kind : r.kind = .dataSource
  source : (r.sourceSheet, r.sourceField) = (t.name, "")
  target : (r.targetSheet, r.targetField) = (name, "")

namespace Check

/-- The finding for a token: a reference to the field that it names, or else a note that it names
none. -/
inductive Finding.OfToken (c : Computation) (token : String) : Finding → Prop where
  | reference {r} : r.IsOf c token → OfToken c token (.reference r)
  | malformed : (∀ sheet field, ¬ Names token sheet field) → OfToken c token (.malformed
      ("Malformed dependency '" ++ token ++ "' in " ++ c.sheet ++ "!" ++ c.field ++ " ignored"))

/-- The text says why the reference is not resolved: there is no table of the name; or the first table
of the name has no such field; or it has one, which is computed, and no step owns it. -/
inductive Explains (schema : Schema) (owners : Owners) (r : Reference) : String → Prop where
  | noTable : r.targetSheet ∉ schema.tables.map (·.name) → Explains schema owners r
      (r.origin ++ " depends on sheet '" ++ r.targetSheet ++ "', which does not exist")
  | noField {table} : schema.table? r.targetSheet = some table →
      r.targetField ∉ table.fieldNames → Explains schema owners r
      (r.origin ++ " depends on field '" ++ r.targetField ++ "' in sheet '" ++ r.targetSheet
        ++ "', which does not exist")
  | noOwner {table field} : schema.table? r.targetSheet = some table →
      table.field? r.targetField = some field → field.isComputed = true →
      owners.owner? r.targetSheet r.targetField = none → Explains schema owners r
      (r.origin ++ " depends on computed field " ++ r.token ++ " which has no producing step")

/-- The finding is to be warned of. -/
def Finding.isOpen : Finding → Bool
  | .reference r => !r.isResolved
  | .malformed _ => true

/-- What the warning of a finding says. -/
inductive Warns (schema : Schema) (owners : Owners) : Finding → String → Prop where
  | malformed (text : String) : Warns schema owners (.malformed text) text
  | reference {r text} : Explains schema owners r text → Warns schema owners (.reference r) text

variable {schema : Schema} {owners : Owners} {r : Reference}

section Explanations

/-- A reference is unresolved for want of the table, or because no step owns the field and it is not
there, or computed. -/
def Judged (schema : Schema) (owners : Owners) (r : Reference) : Prop :=
  r.isResolved = false → schema.table? r.targetSheet = none ∨
    owners.owner? r.targetSheet r.targetField = none ∧
      (schema.field? r.targetSheet r.targetField).any (!·.isComputed) = false

theorem judged_fieldReference (source : String × String) (sheet field : String)
    (kind : ReferenceKind) :
    Judged schema owners (fieldReference schema owners source sheet field kind) := by
  intro hopen
  obtain ⟨howner, hfield⟩ := Bool.or_eq_false_iff.1 hopen
  have hnone : owners.owner? sheet field = none := by simpa using howner
  exact .inr ⟨hnone, hfield⟩

theorem judged_tableReference (source : String × String) (sheet : String) (kind : ReferenceKind) :
    Judged schema owners (tableReference schema owners source sheet kind) := by
  intro hopen
  have hnone : schema.table? sheet = none := by simpa [tableReference] using hopen
  exact .inl hnone

theorem judged_of_mem_lookupReferences {own : Table} {field formula : String}
    (h : r ∈ lookupReferences schema owners own field formula) : Judged schema owners r := by
  rcases List.mem_append.1 h with h | h
  · obtain ⟨t, -, ht⟩ := List.mem_flatMap.1 h
    split at ht
    · obtain rfl := List.mem_singleton.1 ht
      exact judged_tableReference _ _ _
    · obtain ⟨n, -, rfl⟩ := List.mem_map.1 ht
      exact judged_fieldReference _ _ _ _
  · obtain ⟨mention, hmention, rfl⟩ := List.mem_map.1 h
    obtain ⟨-, hforeign⟩ := List.mem_filter.1 hmention
    have hnone : (schema.table? mention.1).isNone = true := (Bool.and_eq_true_iff.1 hforeign).2
    exact fun _ => .inl (Option.isNone_iff_eq_none.1 hnone)

theorem exists_of_mem_lookupFindings {f : Finding} (h : f ∈ lookupFindings schema owners) :
    ∃ own field formula r, r ∈ lookupReferences schema owners own field formula ∧
      f = .reference r := by
  obtain ⟨t, -, h⟩ := List.mem_flatMap.1 h
  obtain ⟨field, -, h⟩ := List.mem_flatMap.1 h
  split at h
  · cases h
  · next formula _ =>
    split at h
    · obtain ⟨r, hr, rfl⟩ := List.mem_map.1 h
      exact ⟨t, field.name, formula, r, mem_of_mem_distinctTargets hr, rfl⟩
    · cases h

theorem judged_of_mem_findings (h : .reference r ∈ findings schema owners) :
    Judged schema owners r := by
  rcases List.mem_append.1 h with h | h
  · rcases List.mem_append.1 h with h | h
    · obtain ⟨c, -, h⟩ := List.mem_flatMap.1 h
      obtain ⟨token, -, h⟩ := List.mem_map.1 h
      unfold tokenFinding at h
      split at h
      · cases h
      · cases h
        exact judged_fieldReference _ _ _ _
    · obtain ⟨_, _, _, x, hx, hsame⟩ := exists_of_mem_lookupFindings h
      cases hsame
      exact judged_of_mem_lookupReferences hx
  · obtain ⟨t, -, h⟩ := List.mem_flatMap.1 h
    obtain ⟨source, -, hsame⟩ := List.mem_map.1 h
    cases hsame
    exact judged_tableReference _ _ _

/-- The cause is looked up once more when the text is made, with the same outcome. -/
theorem Judged.explains (h : Judged schema owners r) (hopen : r.isResolved = false) :
    Explains schema owners r (explain schema r) := by
  unfold explain
  dsimp only
  split
  · next hnone => exact .noTable (Schema.table?_eq_none_iff.1 hnone)
  · next table htable =>
    rcases h hopen with hnone | ⟨howner, hcomputed⟩
    · rw [hnone] at htable
      cases htable
    · split
      · next hnone =>
        refine .noField htable ?_
        simpa [Table.field?, Table.fieldNames] using hnone
      · next f hfield =>
        exact .noOwner htable hfield (Schema.isComputed_of_field? htable hfield hcomputed) howner

end Explanations

section Accounts

theorem ofToken_tokenFinding (c : Computation) (token : String) :
    (tokenFinding schema owners c token).OfToken c token := by
  unfold tokenFinding
  cases hsplit : splitToken? token with
  | none =>
    refine .malformed fun sheet field hnames => ?_
    rw [splitToken?_eq_some_iff.2 hnames] at hsplit
    cases hsplit
  | some target => exact .reference ⟨rfl, rfl, hsplit⟩

theorem chainFindings_eq_map (schema : Schema) (owners : Owners) : chainFindings schema owners =
    schema.tokens.map fun x => tokenFinding schema owners x.1 x.2 := by
  simp only [chainFindings, Schema.tokens, List.map_flatMap, List.map_map]
  rfl

theorem sourceFindings_eq_map (schema : Schema) (owners : Owners) : sourceFindings schema owners =
    schema.feeds.map fun x =>
      .reference (tableReference schema owners (x.1.name, "") x.2 .dataSource) := by
  simp only [sourceFindings, Schema.feeds, List.map_flatMap, List.map_map]
  rfl

theorem forall₂_ofToken (schema : Schema) (owners : Owners) :
    List.Forall₂ (fun x f => f.OfToken x.1 x.2) schema.tokens (chainFindings schema owners) := by
  rw [chainFindings_eq_map, List.forall₂_map_right_iff, List.forall₂_same]
  exact fun x _ => ofToken_tokenFinding x.1 x.2

theorem forall₂_isFeed (schema : Schema) (owners : Owners) :
    List.Forall₂ (fun x f => ∃ r, f = .reference r ∧ r.IsFeed x.1 x.2) schema.feeds
      (sourceFindings schema owners) := by
  rw [sourceFindings_eq_map, List.forall₂_map_right_iff, List.forall₂_same]
  exact fun x _ => ⟨_, rfl, rfl, rfl, rfl⟩

theorem forall₂_warns {found : List Finding}
    (h : ∀ r, .reference r ∈ found → Judged schema owners r) :
    List.Forall₂ (Warns schema owners) (found.filter Finding.isOpen)
      (found.filterMap (Finding.warning? schema)) := by
  induction found with
  | nil => exact .nil
  | cons f found ih =>
    have hrest := ih fun r hr => h r (List.mem_cons_of_mem _ hr)
    cases f with
    | malformed text => exact .cons (.malformed text) hrest
    | reference r =>
      cases hr : r.isResolved with
      | true => simpa [List.filter_cons, List.filterMap_cons, Finding.isOpen, Finding.warning?, hr]
          using hrest
      | false =>
        have hwarns : Warns schema owners (.reference r) (explain schema r) :=
          .reference ((h r List.mem_cons_self).explains hr)
        simpa [List.filter_cons, List.filterMap_cons, Finding.isOpen, Finding.warning?, hr]
          using ⟨hwarns, hrest⟩

/-- Without a schema the check is as for one without tables. -/
theorem run_getD (steps : List Step) (schema : Option Schema) (owners : Owners)
    (review : Option SchemaReview) :
    run steps schema owners review = run steps (some (schema.getD {})) owners review := by
  cases schema with
  | some s => rfl
  | none => cases review <;> rfl

/-- Unresolved references and warnings are just those that the findings call for, followed by the
warnings of the review. -/
theorem run_accounts (steps : List Step) (schema : Option Schema) (owners : Owners)
    (review : Option SchemaReview) :
    let s := schema.getD {}
    let v := run steps schema owners review
    v.unresolved = v.references.filter (!·.isResolved) ∧
    v.cycles = (StructureReport.ofSteps steps).cycles ++ review.elim [] (·.cycles) ∧
    ∃ chain lookups sources : List Finding,
      List.Forall₂ (fun x f => f.OfToken x.1 x.2) s.tokens chain ∧
      (∀ f ∈ lookups, ∃ r, f = .reference r ∧ r.kind = .lookup) ∧
      List.Forall₂ (fun x f => ∃ r, f = .reference r ∧ r.IsFeed x.1 x.2) s.feeds sources ∧
      v.references = (chain ++ lookups ++ sources).filterMap Finding.reference? ∧
      ∃ warnings, v.warnings = warnings ++ review.elim [] (·.warnings) ∧
        List.Forall₂ (Warns s owners) ((chain ++ lookups ++ sources).filter Finding.isOpen)
          warnings := by
  intro s v
  have hv : v = run steps (some s) owners review := run_getD steps schema owners review
  have hlookups : ∀ f ∈ lookupFindings s owners, ∃ r, f = .reference r ∧ r.kind = .lookup := by
    intro f hf
    obtain ⟨_, _, _, r, hr, rfl⟩ := exists_of_mem_lookupFindings hf
    exact ⟨r, rfl, kind_of_mem_lookupReferences hr⟩
  have hwarnings : List.Forall₂ (Warns s owners) ((findings s owners).filter Finding.isOpen)
      ((findings s owners).filterMap (Finding.warning? s)) :=
    forall₂_warns fun r hr => judged_of_mem_findings hr
  rw [hv, run_eq]
  exact ⟨rfl, rfl, chainFindings s owners, lookupFindings s owners, sourceFindings s owners,
    forall₂_ofToken s owners, hlookups, forall₂_isFeed s owners, rfl, _, rfl, hwarnings⟩

/-- The second table of a name is not looked at. -/
example :
    let schema : Schema :=
      { tables := [⟨"T", [⟨"a", none, none, none⟩], ["Rates"]⟩, ⟨"T", [⟨"b", none, none, none⟩], []⟩]
        calculationChain := [⟨"T", "a", "=b", ["T!a", "T!a!b", "T!b"]⟩] }
    (run [] (some schema) .empty none).warnings =
      ["Malformed dependency 'T!a!b' in T!a ignored",
        "T!a depends on field 'b' in sheet 'T', which does not exist",
        "T depends on sheet 'Rates', which does not exist"] := by
  decide +kernel

end Accounts

end Check

end WorkbookPlan
