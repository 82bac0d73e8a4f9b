import WorkbookPlan.Proofs.Step.Exchange
import WorkbookPlan.Repair.Basic

/-! Repairs survive their exchange form if their new steps do. -/
namespace WorkbookPlan

def RepairContext.InRange (c : RepairContext) : Prop :=
  c.count < UInt32.size

section RoundTrips

instance : LawfulWire Failure where
  decode_encode f := by cases f <;> rfl

instance : LawfulWire Strategy where
  decode_encode s := by cases s <;> rfl

instance : LawfulWire Diagnosis where
  decode_encode d := by
    unfold encode decode? instWireDiagnosis
    refine Json.bind_parts? fun parts hparts => ?_
    simp [required, hparts]

theorem RepairContext.roundTrips {c : RepairContext} (h : c.InRange) : RoundTrips c := by
  have hcount : Json.nat32? (Json.nat c.count) = some c.count := Json.nat32?_nat h
  unfold RoundTrips encode decode? instWireRepairContext
  refine Json.bind_parts? fun parts hparts => ?_
  rw [nullable_of c.details encode (by simp [hparts])
    (by simp [encode]) (fun _ _ => decode?_encode _)]
  simp [required, withDefault, hparts, hcount]

theorem Repair.roundTrips {r : Repair} (h : ∀ s ∈ r.newSteps, s.InRange) : RoundTrips r := by
  have hsteps : decode? (encode r.newSteps) = some r.newSteps :=
    roundTrips_list fun s hs => Step.roundTrips (h s hs)
  unfold RoundTrips encode decode? instWireRepair
  refine Json.bind_parts? fun parts hparts => ?_
  rw [nullable_of r.replacement encode (by simp [hparts])
      (by simp [encode]) (fun _ _ => decode?_encode _),
    nullable_of r.recommendation encode (by simp [hparts])
      (by simp [encode]) (fun _ _ => decode?_encode _)]
  simp [required, hparts, hsteps]

end RoundTrips

section Readable

variable {depth : Nat}

theorem readable_diagnosis (d : Diagnosis) : Json.Readable (depth + 2) (encode d) := by
  have hfailure : Json.Readable (depth + 1) (encode d.failure) := .str
  refine Json.Readable.object ?_
  simp [hfailure]

theorem RepairContext.readable {c : RepairContext} (h : c.InRange) :
    Json.Readable (depth + 2) (encode c) := by
  have hcount : Json.Readable (depth + 1) (Json.nat c.count) :=
    Json.readable_nat (Nat.lt_trans h (by decide))
  refine Json.Readable.object ?_
  simp only [List.forall_mem_append, forall_mem_fieldIfSome]
  simp [hcount]

theorem Repair.readable {r : Repair} (h : ∀ s ∈ r.newSteps, s.InRange)
    (hfree : ∀ s ∈ r.newSteps, s.FreeReadable (depth + 1)) :
    Json.Readable (depth + 5) (encode r) := by
  have hstrategy : Json.Readable (depth + 4) (encode r.strategy) := .str
  have hsteps : Json.Readable (depth + 4) (encode r.newSteps) :=
    readable_list fun s hs => Step.readable (h s hs) (hfree s hs)
  have hdiagnosis : Json.Readable (depth + 4) (encode r.diagnosis) := readable_diagnosis r.diagnosis
  refine Json.Readable.object ?_
  simp only [List.forall_mem_append, forall_mem_fieldIfSome]
  simp [hstrategy, hsteps, hdiagnosis]

end Readable

end WorkbookPlan
