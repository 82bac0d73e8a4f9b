import WorkbookPlan.Proofs.Json.Record
import WorkbookPlan.Schema.Exchange

/-! Schemas survive their exchange form if the bounds of their rules are finite numbers. -/
namespace WorkbookPlan

open Decimal (Binary64)

namespace FieldRule

def EachBound (P : Binary64 → Prop) (r : FieldRule) : Prop :=
  (∀ x ∈ r.min, P x) ∧ ∀ x ∈ r.max, P x

def listed? (r : FieldRule) : Option (List String) :=
  if r.values.isEmpty then none else some r.values

end FieldRule

/-- Each bound of a rule of the schema is such a number. -/
def Schema.EachBound (P : Binary64 → Prop) (s : Schema) : Prop :=
  ∀ t ∈ s.tables, ∀ f ∈ t.fields, ∀ r ∈ f.rule, r.EachBound P

theorem Schema.eachBound_of_rule {P : Binary64 → Prop} {rule : FieldRule} (h : rule.EachBound P)
    (table field : String) :
    Schema.EachBound P
      { tables := [{ name := table, fields := [{ name := field, rule := some rule }] }] } := by
  intro t ht f hf r hr
  rw [List.mem_singleton.1 ht] at hf
  rw [List.mem_singleton.1 hf] at hr
  cases hr
  exact h

instance : LawfulWire RuleKind where
  decode_encode k := by cases k <;> rfl

section RoundTrips

theorem roundTrips_of_isFinite {x : Binary64} (h : x.isFinite = true) : RoundTrips x := by
  rw [RoundTrips, Wire.encode_of_isFinite h]
  rfl

/-- A finite bound is never taken for a missing one. -/
theorem nullable_bound {o : Option Binary64} {k : String} {parts : String → Option Json}
    (h : ∀ x ∈ o, x.isFinite = true) (hparts : parts k = o.map encode) :
    nullable parts decode? k = some o := by
  refine nullable_of o encode hparts (fun x hx => ?_) fun x hx => roundTrips_of_isFinite (h x hx)
  rw [Wire.encode_of_isFinite (h x hx)]
  exact Json.noConfusion

theorem FieldRule.values_eq (r : FieldRule) :
    (if r.values.isEmpty then [] else [("values", encode r.values)]) =
      fieldIfSome "values" encode r.listed? := by
  unfold listed?
  split <;> rfl

theorem FieldRule.getD_listed? (r : FieldRule) : r.listed?.getD [] = r.values := by
  unfold listed?
  cases r.values <;> rfl

theorem FieldRule.roundTrips {r : FieldRule} (h : r.EachBound (·.isFinite = true)) :
    RoundTrips r := by
  obtain ⟨hmin, hmax⟩ := h
  unfold RoundTrips encode decode? instWireFieldRule
  simp only [values_eq]
  refine Json.bind_parts? fun parts hparts => ?_
  rw [withDefault_of r.listed? encode (by simp [hparts])
      (fun _ _ => decode?_encode _),
    nullable_bound hmin (by simp [hparts]),
    nullable_bound hmax (by simp [hparts]),
    nullable_of r.formula encode (by simp [hparts])
      (by simp [encode]) (fun _ _ => decode?_encode _),
    nullable_of r.message encode (by simp [hparts])
      (by simp [encode]) (fun _ _ => decode?_encode _), getD_listed?]
  simp [required, withDefault, hparts]

theorem Field.roundTrips {f : Field} (h : ∀ r ∈ f.rule, r.EachBound (·.isFinite = true)) :
    RoundTrips f := by
  unfold RoundTrips encode decode? instWireField
  refine Json.bind_parts? fun parts hparts => ?_
  rw [nullable_of f.formula encode (by simp [hparts])
      (by simp [encode]) (fun _ _ => decode?_encode _),
    nullable_of f.rule encode (by simp [hparts])
      (by simp [encode, Json.object]) (fun r hr => FieldRule.roundTrips (h r hr)),
    nullable_of f.description encode (by simp [hparts])
      (by simp [encode]) (fun _ _ => decode?_encode _)]
  simp [required, hparts]

theorem Table.roundTrips {t : Table}
    (h : ∀ f ∈ t.fields, ∀ r ∈ f.rule, r.EachBound (·.isFinite = true)) : RoundTrips t := by
  have hfields : decode? (encode t.fields) = some t.fields :=
    roundTrips_list fun f hf => Field.roundTrips (h f hf)
  unfold RoundTrips encode decode? instWireTable
  refine Json.bind_parts? fun parts hparts => ?_
  simp [required, withDefault, hparts, hfields]

instance : LawfulWire Computation where
  decode_encode c := by
    unfold encode decode? instWireComputation
    refine Json.bind_parts? fun parts hparts => ?_
    simp [required, withDefault, hparts]

theorem Schema.roundTrips {s : Schema} (h : s.EachBound (·.isFinite = true)) : RoundTrips s := by
  have htables : decode? (encode s.tables) = some s.tables :=
    roundTrips_list fun t ht => Table.roundTrips (h t ht)
  unfold RoundTrips encode decode? instWireSchema
  refine Json.bind_parts? fun parts hparts => ?_
  simp [withDefault, hparts, htables]

instance : LawfulWire SchemaReview where
  decode_encode r := by
    unfold encode decode? instWireSchemaReview
    refine Json.bind_parts? fun parts hparts => ?_
    simp [withDefault, hparts]

end RoundTrips

section Readable

variable {depth : Nat}

theorem readable_float {x : Binary64} (h : Json.ReadsBack x) : Json.Readable depth (encode x) := by
  rw [Wire.encode_of_isFinite h.1]
  exact .float h

theorem FieldRule.readable {r : FieldRule} (h : r.EachBound Json.ReadsBack) :
    Json.Readable (depth + 2) (encode r) := by
  have hkind : Json.Readable (depth + 1) (encode r.kind) := .str
  have hmin : ∀ x ∈ r.min, Json.Readable (depth + 1) (encode x) := fun x hx =>
    readable_float (h.1 x hx)
  have hmax : ∀ x ∈ r.max, Json.Readable (depth + 1) (encode x) := fun x hx =>
    readable_float (h.2 x hx)
  refine Json.Readable.object ?_
  simp only [values_eq, List.forall_mem_append, forall_mem_fieldIfSome]
  simpa [hkind] using And.intro hmin hmax

theorem Field.readable {f : Field} (h : ∀ r ∈ f.rule, r.EachBound Json.ReadsBack) :
    Json.Readable (depth + 3) (encode f) := by
  have hrule : ∀ r ∈ f.rule, Json.Readable (depth + 2) (encode r) := fun r hr =>
    FieldRule.readable (h r hr)
  refine Json.Readable.object ?_
  simp only [List.forall_mem_append, forall_mem_fieldIfSome]
  simpa using hrule

theorem Table.readable {t : Table} (h : ∀ f ∈ t.fields, ∀ r ∈ f.rule, r.EachBound Json.ReadsBack) :
    Json.Readable (depth + 5) (encode t) := by
  have hfields : Json.Readable (depth + 4) (encode t.fields) :=
    readable_list fun f hf => Field.readable (h f hf)
  refine Json.Readable.object ?_
  simp [hfields]

@[simp] theorem readable_computation (c : Computation) : Json.Readable (depth + 2) (encode c) := by
  refine Json.Readable.object ?_
  simp

theorem Schema.readable {s : Schema} (h : s.EachBound Json.ReadsBack) :
    Json.Readable (depth + 7) (encode s) := by
  have htables : Json.Readable (depth + 6) (encode s.tables) :=
    readable_list fun t ht => Table.readable (h t ht)
  have hchain : Json.Readable (depth + 6) (encode s.calculationChain) :=
    readable_list fun c _ => readable_computation c
  refine Json.Readable.object ?_
  simp [htables, hchain]

@[simp] theorem readable_schemaReview (r : SchemaReview) : Json.Readable (depth + 3) (encode r) := by
  have hcycles : Json.Readable (depth + 2) (encode r.cycles) :=
    readable_list fun c _ => readable_strings c
  refine Json.Readable.object ?_
  simp [hcycles]

end Readable

end WorkbookPlan
