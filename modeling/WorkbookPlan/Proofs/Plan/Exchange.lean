import WorkbookPlan.Proofs.Json.Plain
import WorkbookPlan.Proofs.Plan.Owners
import WorkbookPlan.Proofs.Repair.Exchange
import WorkbookPlan.Proofs.Schema.Exchange
import WorkbookPlan.Proofs.Verdict.Exchange

/-! What is exchanged is read back: each value from its form, and from its text where the numbers and
the free values in it can be read. Floating-point numbers of up to fifteen digits can. -/
namespace WorkbookPlan

namespace Plan

structure InRange (p : Plan) : Prop where
  steps : ∀ s ∈ p.steps, s.InRange
  expectations : ∀ e ∈ p.expectations, e.InRange
  current : p.current < UInt64.size
  repairCount : p.repairCount < UInt32.size

structure FreeReadable (depth : Nat) (p : Plan) : Prop where
  steps : ∀ s ∈ p.steps, s.FreeReadable depth
  expectations : ∀ e ∈ p.expectations, ∀ j ∈ e.free?, Json.Readable (depth + 1) j

/-- The same plan, though the owners of fields may have been registered in another order. -/
def Agrees (p q : Plan) : Prop :=
  q = { p with owners := q.owners } ∧
    ∀ table field, q.owners.owner? table field = p.owners.owner? table field

end Plan

instance : LawfulWire Phase where
  decode_encode p := by cases p <;> rfl

theorem Plan.decode?_encode {p : Plan} (h : p.InRange) :
    decode? (encode p) = some { p with owners := p.owners.sorted } := by
  have hsteps : decode? (encode p.steps) = some p.steps :=
    roundTrips_list fun s hs => Step.roundTrips (h.steps s hs)
  have hexpectations : decode? (encode p.expectations) = some p.expectations :=
    roundTrips_list fun e he => Expectation.roundTrips (h.expectations e he)
  have hcurrent : Json.nat64? (Json.nat p.current) = some p.current := Json.nat64?_nat h.current
  have hcount : Json.nat32? (Json.nat p.repairCount) = some p.repairCount :=
    Json.nat32?_nat h.repairCount
  have howners : decode? (encode p.owners) = some p.owners.sorted := Owners.decode?_encode p.owners
  obtain ⟨parts, hlookup, hparts⟩ := Json.exists_parts (("fieldStepIds", encode p.owners) :: p.fields)
  show ofObject? (Keyed.ofList (("fieldStepIds", encode p.owners) :: p.fields)) = _
  unfold ofObject?
  dsimp only
  rw [hlookup]
  rw [nullable_of p.question encode (by simp [hparts, fields]) (by simp [encode])
    (fun _ _ => WorkbookPlan.decode?_encode _)]
  simp [required, withDefault, hparts, fields, hsteps, hexpectations, howners, hcurrent, hcount]

theorem Plan.readable {depth : Nat} {p : Plan} (h : p.InRange) (hfree : p.FreeReadable (depth + 1)) :
    Json.Readable (depth + 5) (encode p) := by
  have hsteps : Json.Readable (depth + 4) (encode p.steps) :=
    readable_list fun s hs => Step.readable (h.steps s hs) (hfree.steps s hs)
  have hexpectations : Json.Readable (depth + 4) (encode p.expectations) :=
    readable_list fun e he => Expectation.readable (h.expectations e he) (hfree.expectations e he)
  have hverdict : Json.Readable (depth + 4) (encode p.verdict) := readable_verdict p.verdict
  have hrisks : Json.Readable (depth + 4) (encode p.risks) :=
    readable_list fun r _ => readable_risk r
  have howners : Json.Readable (depth + 4) (encode p.owners) := Owners.readable p.owners
  have hcurrent : Json.Readable (depth + 4) (Json.nat p.current) := Json.readable_nat h.current
  have hcount : Json.Readable (depth + 4) (Json.nat p.repairCount) :=
    Json.readable_nat (Nat.lt_trans h.repairCount (by decide))
  have hphase : Json.Readable (depth + 4) (encode p.phase) := .str
  have hlinks : Json.Readable (depth + 4) (encode p.supersessions) :=
    readable_supersessions p.supersessions
  refine Json.Readable.object ?_
  unfold fields
  simp only [List.forall_mem_cons, List.forall_mem_append, forall_mem_fieldIfSome]
  simp [hsteps, hexpectations, hverdict, hrisks, howners, hcurrent, hcount, hphase, hlinks]

/-- The form of the owners is the same in every order of registration. -/
theorem Plan.encode_sorted (p : Plan) :
    encode { p with owners := p.owners.sorted } = encode p := by
  have howners := Owners.encode_sorted p.owners
  show Json.object (("fieldStepIds", encode p.owners.sorted) :: p.fields) = _
  rw [howners]
  rfl

theorem exchange_round_trips :
    (∀ s : Step, s.InRange →
      RoundTrips s ∧ (s.FreeReadable (Json.maxDepth - 2) → ReadsThrough s)) ∧
    (∀ e : Expectation, e.InRange →
      RoundTrips e ∧ ((∀ j ∈ e.free?, Json.Readable (Json.maxDepth - 1) j) → ReadsThrough e)) ∧
    (∀ p : Preview, p.InRange → RoundTrips p ∧ ReadsThrough p) ∧
    (∀ s : Schema, s.EachBound (·.isFinite = true) →
      RoundTrips s ∧ (s.EachBound Json.ReadsBack → ReadsThrough s)) ∧
    (∀ r : SchemaReview, RoundTrips r ∧ ReadsThrough r) ∧
    (∀ v : Verdict, RoundTrips v ∧ ReadsThrough v) ∧
    (∀ r : Risk, RoundTrips r ∧ ReadsThrough r) ∧
    (∀ c : RepairContext, c.InRange → RoundTrips c ∧ ReadsThrough c) ∧
    (∀ r : Repair, (∀ s ∈ r.newSteps, s.InRange) →
      RoundTrips r ∧
        ((∀ s ∈ r.newSteps, s.FreeReadable (Json.maxDepth - 4)) → ReadsThrough r)) ∧
    (∀ p : Plan, p.InRange → ∃ q, p.Agrees q ∧ encode q = encode p ∧
      decode? (encode p) = some q ∧
        (p.FreeReadable (Json.maxDepth - 4) →
          (Json.read? (encode p).text).bind decode? = some q)) ∧
    (∀ x : Decimal.Binary64, x.isFinite = true → 'e' ∉ x.text → x.text.countP Char.isDigit ≤ 15 →
      Json.ReadsBack x) := by
  refine ⟨?_, ?_, ?_, ?_, ?_, ?_, ?_, ?_, ?_, ?_, ?_⟩
  · intro s h
    have hform : RoundTrips s := Step.roundTrips h
    exact ⟨hform, fun hfree => hform.readsThrough (Step.readable h hfree)⟩
  · intro e h
    have hform : RoundTrips e := Expectation.roundTrips h
    exact ⟨hform, fun hfree => hform.readsThrough (Expectation.readable h hfree)⟩
  · intro p h
    have hform : RoundTrips p := Preview.roundTrips h
    exact ⟨hform, hform.readsThrough (Preview.readable h)⟩
  · intro s h
    have hform : RoundTrips s := Schema.roundTrips h
    exact ⟨hform, fun hbounds => hform.readsThrough (Schema.readable hbounds)⟩
  · intro r
    exact ⟨roundTrips r, (roundTrips r).readsThrough (readable_schemaReview r)⟩
  · intro v
    exact ⟨roundTrips v, (roundTrips v).readsThrough (readable_verdict v)⟩
  · intro r
    exact ⟨roundTrips r, (roundTrips r).readsThrough (readable_risk r)⟩
  · intro c h
    have hform : RoundTrips c := RepairContext.roundTrips h
    exact ⟨hform, hform.readsThrough (RepairContext.readable h)⟩
  · intro r h
    have hform : RoundTrips r := Repair.roundTrips h
    exact ⟨hform, fun hfree => hform.readsThrough (Repair.readable h hfree)⟩
  · intro p h
    refine ⟨{ p with owners := p.owners.sorted }, ⟨rfl, p.owners.owner?_sorted⟩, p.encode_sorted,
      Plan.decode?_encode h, fun hfree => ?_⟩
    rw [Json.read?_text (Plan.readable h hfree)]
    exact Plan.decode?_encode h
  · intro x hx hplain hdigits
    exact Json.readsBack_of_digits hx hplain hdigits

/-- Largest counts, a null that is expected, bounds with and without an exponent, and owners that
are registered against the order of their names. -/
theorem exchange_round_trips_sample :
    let preview : Preview := { affectedRange := "A1", estimatedCells := some 18446744073709551615 }
    let step : Step :=
      { id := "s", order := 4294967295, stage := .verify, action := Action.verifyResults
        preview := some preview, expectation := .valueCheck "A" "A1" .null }
    let rule : FieldRule := .between .decimal ⟨0xBFB999999999999A⟩ ⟨0x7FE1CCF385EBC8A0⟩
    let schema : Schema :=
      { tables := [{ name := "A", fields := [{ name := "x", rule := some rule }] }] }
    let context : RepairContext := { count := 4294967295 }
    let repair : Repair :=
      ⟨.retry, [step], true, false, ⟨.timeout, "", [], true⟩, some "s", none⟩
    let plan : Plan :=
      { task := "", taskKind := "", steps := [step], expectations := [step.expectation]
        owners := (Owners.empty.register "B" "y" "s").register "A" "x" "s" }
    (step.InRange ∧ step.FreeReadable (Json.maxDepth - 2) ∧ RoundTrips step ∧ ReadsThrough step) ∧
    (preview.InRange ∧ RoundTrips preview ∧ ReadsThrough preview) ∧
    (schema.EachBound (·.isFinite = true) ∧ schema.EachBound Json.ReadsBack ∧ RoundTrips schema ∧
      ReadsThrough schema) ∧
    (context.InRange ∧ RoundTrips context ∧ ReadsThrough context) ∧
    (RoundTrips repair ∧ ReadsThrough repair) ∧
    (plan.InRange ∧ plan.FreeReadable (Json.maxDepth - 4) ∧
      ∃ q, plan.Agrees q ∧ encode q = encode plan ∧ decode? (encode plan) = some q ∧
        (Json.read? (encode plan).text).bind decode? = some q) := by
  intro preview step rule schema context repair plan
  obtain ⟨hsteps, -, hpreviews, hschemas, -, -, -, hcontexts, hrepairs, hplans, hnumbers⟩ :=
    exchange_round_trips
  have hcells : preview.InRange := by
    intro cells hcells
    cases hcells
    decide
  have hstep : step.InRange := by
    refine ⟨by decide, ?_, trivial⟩
    intro p hp
    cases hp
    exact hcells
  have hfree : ∀ depth, step.FreeReadable depth := by
    refine fun depth => ⟨.null, ?_⟩
    intro j hj
    cases hj
    exact .null
  have hshort : Json.ReadsBack ⟨0xBFB999999999999A⟩ :=
    hnumbers _ (by decide) (by decide +kernel) (by decide +kernel)
  have hlarge : Json.ReadsBack ⟨0x7FE1CCF385EBC8A0⟩ := by
    unfold Json.ReadsBack
    decide +kernel
  have hbounds : ∀ P : Decimal.Binary64 → Prop, P ⟨0xBFB999999999999A⟩ → P ⟨0x7FE1CCF385EBC8A0⟩ →
      schema.EachBound P := by
    intro P hmin hmax
    refine Schema.eachBound_of_rule ⟨?_, ?_⟩ "A" "x"
    · intro x hx
      cases hx
      exact hmin
    · intro x hx
      cases hx
      exact hmax
  have hfinite := hbounds (·.isFinite = true) hshort.1 hlarge.1
  have hback := hbounds Json.ReadsBack hshort hlarge
  have hcontext : context.InRange := by
    show 4294967295 < UInt32.size
    decide
  have hnew : ∀ s ∈ repair.newSteps, s.InRange := List.forall_mem_singleton.2 hstep
  have hnewFree : ∀ s ∈ repair.newSteps, s.FreeReadable (Json.maxDepth - 4) :=
    List.forall_mem_singleton.2 (hfree _)
  have hplan : plan.InRange :=
    ⟨List.forall_mem_singleton.2 hstep, List.forall_mem_singleton.2 trivial, by decide, by decide⟩
  have hplanFree : plan.FreeReadable (Json.maxDepth - 4) := by
    refine ⟨List.forall_mem_singleton.2 (hfree _), List.forall_mem_singleton.2 ?_⟩
    intro j hj
    cases hj
    exact .null
  obtain ⟨q, hagrees, hagain, hread, hthrough⟩ := hplans plan hplan
  exact ⟨⟨hstep, hfree _, (hsteps step hstep).1, (hsteps step hstep).2 (hfree _)⟩,
    ⟨hcells, hpreviews preview hcells⟩,
    ⟨hfinite, hback, (hschemas schema hfinite).1, (hschemas schema hfinite).2 hback⟩,
    ⟨hcontext, hcontexts context hcontext⟩,
    ⟨(hrepairs repair hnew).1, (hrepairs repair hnew).2 hnewFree⟩,
    ⟨hplan, hplanFree, q, hagrees, hagain, hread, hthrough hplanFree⟩⟩

/-- A finite bound need not come through: 945.2706955539223 is read as the number above it, since its
digits without the point are rounded before they are divided by a power of ten. -/
theorem finite_bound_changed :
    ¬ ∀ s : Schema, s.EachBound (·.isFinite = true) → ReadsThrough s := by
  intro h
  let rule : FieldRule := { kind := .decimal, min := some ⟨0x408D8A2A626E3A27⟩ }
  let schema : Schema :=
    { tables := [{ name := "A", fields := [{ name := "x", rule := some rule }] }] }
  have hfinite : schema.EachBound (·.isFinite = true) := by
    refine Schema.eachBound_of_rule ⟨?_, nofun⟩ "A" "x"
    intro x hx
    cases hx
    decide
  have hchanged : ¬ ReadsThrough schema := by
    simp only [ReadsThrough, Json.read?, Json.text, String.toList_ofList]
    decide +kernel
  exact hchanged (h schema hfinite)

end WorkbookPlan
