import WorkbookPlan.Proofs.Json.Record
import WorkbookPlan.Step.Exchange

/-! Steps survive their exchange form if their numbers are within the limits of the format. The text
of a step can be read if its free values can. -/
namespace WorkbookPlan

def Preview.InRange (p : Preview) : Prop :=
  ∀ cells ∈ p.estimatedCells, cells < UInt64.size

namespace Expectation

def InRange : Expectation → Prop
  | noErrorValues _ _ sampleCount => sampleCount < UInt32.size
  | _ => True

/-- The free value that is expected or to be checked. -/
def free? : Expectation → Option Json
  | valueCheck _ _ expected | formulaResult _ _ expected => some expected
  | custom _ check => some check
  | toolSuccess | rangeExists .. | sheetExists _ | headersMatch .. | noErrorValues .. => none

end Expectation

namespace Step

structure InRange (s : Step) : Prop where
  order : s.order < UInt32.size
  preview : ∀ p ∈ s.preview, p.InRange
  expectation : s.expectation.InRange

/-- The free values of the step can be read. -/
structure FreeReadable (depth : Nat) (s : Step) : Prop where
  parameters : Json.Readable (depth + 1) s.parameters
  expected : ∀ j ∈ s.expectation.free?, Json.Readable depth j

end Step

section RoundTrips

instance : LawfulWire Stage where
  decode_encode s := by cases s <;> rfl

instance : LawfulWire Status where
  decode_encode s := by cases s <;> rfl

theorem Preview.roundTrips {p : Preview} (h : p.InRange) : RoundTrips p := by
  unfold RoundTrips encode decode? instWirePreview
  refine Json.bind_parts? fun parts hparts => ?_
  rw [nullable_of p.estimatedCells Json.nat (by simp [hparts])
      (fun _ _ => Json.noConfusion) (fun cells hcells => Json.nat64?_nat (h cells hcells)),
    nullable_of p.warning encode (by simp [hparts])
      (by simp [encode]) (fun _ _ => decode?_encode _)]
  simp [required, withDefault, hparts]

/-- No field of a kind is mistaken for the tag. -/
theorem Expectation.part?_type (e : Expectation) :
    Json.part? (("type", .str e.kind) :: e.fields) "type" = some (.str e.kind) := by
  cases e <;> simp [fields]

/-- The tag decides how the other fields are read. -/
theorem Expectation.decode?_encode (e : Expectation) :
    decode? (encode e) = ofKind? e.kind (Json.object (("type", .str e.kind) :: e.fields)) := by
  have htag : (Keyed.ofList (("type", Json.str e.kind) :: e.fields)).lookup "type" =
      some (.str e.kind) :=
    (Keyed.lookup_ofList _ _).trans e.part?_type
  unfold encode decode? Expectation.instWire Json.object
  dsimp only
  rw [htag]

theorem Expectation.roundTrips {e : Expectation} (h : e.InRange) : RoundTrips e := by
  rw [RoundTrips, decode?_encode]
  cases e <;> simp only [kind, ofKind?] <;> refine Json.bind_parts? fun parts hparts => ?_
  case noErrorValues sheet column sampleCount =>
    have hcount : Json.nat32? (Json.nat sampleCount) = some sampleCount := Json.nat32?_nat h
    rw [nullable_of column encode (by simp [hparts, fields]) (by simp [encode])
      (fun _ _ => WorkbookPlan.decode?_encode _)]
    simp [required, hparts, fields, hcount]
  all_goals simp [required, hparts, fields]

theorem Step.roundTrips {s : Step} (h : s.InRange) : RoundTrips s := by
  have horder : Json.nat32? (Json.nat s.order) = some s.order := Json.nat32?_nat h.order
  have hexpectation : decode? (encode s.expectation) = some s.expectation :=
    Expectation.roundTrips h.expectation
  unfold RoundTrips encode decode? instWireStep
  refine Json.bind_parts? fun parts hparts => ?_
  rw [nullable_of s.preview encode (by simp [hparts])
      (by simp [encode, Json.object]) (fun p hp => Preview.roundTrips (h.preview p hp))]
  simp [required, withDefault, hparts, horder, hexpectation]

end RoundTrips

section Readable

variable {depth : Nat}

theorem Preview.readable {p : Preview} (h : p.InRange) : Json.Readable (depth + 1) (encode p) := by
  have hcells : ∀ cells ∈ p.estimatedCells, Json.Readable depth (Json.nat cells) := fun cells hc =>
    Json.readable_nat (h cells hc)
  refine Json.Readable.object ?_
  simp only [List.forall_mem_append, forall_mem_fieldIfSome]
  simpa using hcells

theorem Expectation.readable {e : Expectation} (h : e.InRange)
    (hfree : ∀ j ∈ e.free?, Json.Readable (depth + 1) j) :
    Json.Readable (depth + 2) (encode e) := by
  refine Json.Readable.object ?_
  rw [List.forall_mem_cons]
  refine ⟨.str, ?_⟩
  cases e with
  | toolSuccess => simp [fields]
  | valueCheck sheet range expected =>
    have hexpected : Json.Readable (depth + 1) expected := hfree expected rfl
    simp [fields, hexpected]
  | rangeExists sheet range => simp [fields]
  | formulaResult sheet column expected =>
    have hexpected : Json.Readable (depth + 1) expected := hfree expected rfl
    simp [fields, hexpected]
  | sheetExists sheet => simp [fields]
  | headersMatch sheet headers => simp [fields]
  | noErrorValues sheet column sampleCount =>
    have hcount : Json.Readable (depth + 1) (Json.nat sampleCount) :=
      Json.readable_nat (Nat.lt_trans h (by decide))
    simp only [fields, List.forall_mem_append, forall_mem_fieldIfSome]
    simp [hcount]
  | custom description check =>
    have hcheck : Json.Readable (depth + 1) check := hfree check rfl
    simp [fields, hcheck]

theorem Step.readable {s : Step} (h : s.InRange) (hfree : s.FreeReadable (depth + 1)) :
    Json.Readable (depth + 3) (encode s) := by
  have horder : Json.Readable (depth + 2) (Json.nat s.order) :=
    Json.readable_nat (Nat.lt_trans h.order (by decide))
  have hstage : Json.Readable (depth + 2) (encode s.stage) := .str
  have hstatus : Json.Readable (depth + 2) (encode s.status) := .str
  have hpreview : ∀ p ∈ s.preview, Json.Readable (depth + 2) (encode p) := fun p hp =>
    Preview.readable (h.preview p hp)
  have hexpectation : Json.Readable (depth + 2) (encode s.expectation) :=
    Expectation.readable h.expectation hfree.expected
  refine Json.Readable.object ?_
  simp only [List.forall_mem_append, forall_mem_fieldIfSome]
  simpa [horder, hstage, hstatus, hexpectation, hfree.parameters] using hpreview

end Readable

end WorkbookPlan
