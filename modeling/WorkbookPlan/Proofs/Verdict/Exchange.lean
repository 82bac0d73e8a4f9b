import WorkbookPlan.Proofs.Json.Record
import WorkbookPlan.Verdict.Exchange

/-! Findings survive their exchange form, and its text can be read. -/
namespace WorkbookPlan

section RoundTrips

instance : LawfulWire Dangling where
  decode_encode d := by
    unfold encode decode? instWireDangling
    refine Json.bind_parts? fun parts hparts => ?_
    simp [required, hparts]

instance : LawfulWire ReferenceKind where
  decode_encode k := by cases k <;> rfl

instance : LawfulWire Reference where
  decode_encode r := by
    unfold encode decode? instWireReference
    refine Json.bind_parts? fun parts hparts => ?_
    rw [nullable_of r.stepId encode (by simp [hparts])
      (by simp [encode]) (fun _ _ => decode?_encode _)]
    simp [required, hparts]

instance : LawfulWire Verdict where
  decode_encode v := by
    unfold encode decode? instWireVerdict
    refine Json.bind_parts? fun parts hparts => ?_
    simp [required, withDefault, hparts]

instance : LawfulWire RiskLevel where
  decode_encode l := by cases l <;> rfl

instance : LawfulWire Risk where
  decode_encode r := by
    unfold encode decode? instWireRisk
    refine Json.bind_parts? fun parts hparts => ?_
    simp [required, hparts]

end RoundTrips

section Readable

variable {depth : Nat}

theorem readable_dangling (d : Dangling) : Json.Readable (depth + 1) (encode d) := by
  refine Json.Readable.object ?_
  simp

theorem readable_reference (r : Reference) : Json.Readable (depth + 1) (encode r) := by
  have hkind : Json.Readable depth (encode r.kind) := .str
  refine Json.Readable.object ?_
  simp only [List.forall_mem_append, forall_mem_fieldIfSome]
  simp [hkind]

theorem readable_verdict (v : Verdict) : Json.Readable (depth + 3) (encode v) := by
  have hmissing : Json.Readable (depth + 2) (encode v.missing) :=
    readable_list fun d _ => readable_dangling d
  have hcycles : Json.Readable (depth + 2) (encode v.cycles) :=
    readable_list fun c _ => readable_strings c
  have hreferences : Json.Readable (depth + 2) (encode v.references) :=
    readable_list fun r _ => readable_reference r
  have hunresolved : Json.Readable (depth + 2) (encode v.unresolved) :=
    readable_list fun r _ => readable_reference r
  refine Json.Readable.object ?_
  simp [hmissing, hcycles, hreferences, hunresolved]

theorem readable_risk (r : Risk) : Json.Readable (depth + 1) (encode r) := by
  have hlevel : Json.Readable depth (encode r.level) := .str
  refine Json.Readable.object ?_
  simp [hlevel]

end Readable

end WorkbookPlan
