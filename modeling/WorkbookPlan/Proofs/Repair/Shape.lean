import WorkbookPlan.Proofs.Repair.Patch

/-! The shape of every repair. Unless it gives up, a repair appends pending steps with names of their
own, each waiting for earlier ones at the most, and the last of them stands in for the failed step. What
is no new sheet and no clearing is the failed step again, perhaps with another formula or range. -/
namespace WorkbookPlan

namespace Json

/-- The first value has the keys of the second, with the same values except perhaps under some of the
keys. A value that is no object is the same. -/
def SameBut (keys : List String) : Json → Json → Prop
  | .obj fields, .obj fields' => ∀ k, (fields.lookup k).isSome = (fields'.lookup k).isSome ∧
      (k ∉ keys → fields.lookup k = fields'.lookup k)
  | j, j' => j = j'

variable {keys : List String} {key : String} {j : Json}

theorem SameBut.refl (keys : List String) (j : Json) : SameBut keys j j := by
  cases j with
  | obj fields => exact fun k => ⟨rfl, fun _ => rfl⟩
  | _ => rfl

/-- A new value under a key that is there changes nothing else. -/
theorem sameBut_set (h : (j.get? key).isSome) (hkey : key ∈ keys) (v : Json) :
    (j.set key v).SameBut keys j := by
  cases j with
  | obj fields =>
    intro k
    by_cases hk : k = key
    · subst hk
      rw [Keyed.lookup_insert_self]
      exact ⟨h.symm, fun hnot => absurd hkey hnot⟩
    · rw [Keyed.lookup_insert_of_ne hk]
      exact ⟨rfl, fun _ => rfl⟩
  | _ => cases h

end Json

namespace Step

variable {s t : Step} {key text : String}

/-- The step does the same as another one at the same place, perhaps with another formula or range.
Name, status, description, dependencies and preview are its own. -/
structure Reissues (t s : Step) : Prop where
  order : t.order = s.order
  stage : t.stage = s.stage
  action : t.action = s.action
  isWrite : t.isWrite = s.isWrite
  expectation : t.expectation = s.expectation
  parameters : t.parameters.SameBut ["logicalFormula", "range"] s.parameters

theorem isSome_get?_of_param? (h : s.param? key = some text) : (s.parameters.get? key).isSome := by
  obtain ⟨v, hv, -⟩ := Option.bind_eq_some_iff.1 h
  rw [hv, Option.isSome_some]

end Step

namespace Patch

open Step

variable {m : Mint} {failed t : Step} {error : String} {parts : Nat} {strategy : Strategy}

theorem reissues_again (failed : Step) (id : StepId) (note : String) :
    (again failed id note).Reissues failed :=
  ⟨rfl, rfl, rfl, rfl, rfl, .refl _ _⟩

/-- A formula is put only where there was one. -/
theorem reissues_mapFormula (change : String → Option String) (id : StepId) (note : String) :
    (mapFormula change (again failed id note)).Reissues failed := by
  unfold mapFormula
  split
  · exact reissues_again failed id note
  · next formula hformula =>
    obtain ⟨_, hparam, -⟩ := Option.bind_eq_some_iff.1 hformula
    exact ⟨rfl, rfl, rfl, rfl, rfl,
      Json.sameBut_set (isSome_get?_of_param? hparam) List.mem_cons_self _⟩

theorem reissues_waitFor (other id : StepId) (note : String) :
    (waitFor other (again failed id note)).Reissues failed := by
  unfold waitFor
  split
  · exact reissues_again failed id note
  · exact ⟨rfl, rfl, rfl, rfl, rfl, .refl _ _⟩

/-- A band is put only where there was a range. -/
theorem reissues_part (sheet : Option (List Char)) (total : Nat) {piece : Sheet.Area × Nat}
    (h : piece.1 ∈ (pieces failed parts).2) : (part m failed sheet total piece).Reissues failed := by
  unfold pieces at h
  split at h
  · cases h
  · next range hrange =>
    exact ⟨rfl, rfl, rfl, rfl, rfl, Json.sameBut_set (isSome_get?_of_param? hrange) (by simp) _⟩

@[simp] theorem status_mapFormula (change : String → Option String) (s : Step) :
    (mapFormula change s).status = s.status := by
  unfold mapFormula
  split <;> rfl

@[simp] theorem status_waitFor (id : StepId) (s : Step) : (waitFor id s).status = s.status := by
  unfold waitFor
  split <;> rfl

theorem Built.status_eq (h : Built m failed error parts strategy t) : t.status = .pending := by
  cases h with
  | reformulated change id note => rw [status_mapFormula, again]
  | waiting other id note => rw [status_waitFor, again]
  | _ => rfl

/-- A new step is the failed step again, or a sheet that the error names as missing is created by it,
or it clears what the failed step wrote. -/
theorem Built.made (h : Built m failed error parts strategy t) :
    t.Reissues failed ∨
      (strategy = .addPrerequisite ∧ ∃ sheet, MissingSheet.find? error = some sheet ∧
        t = createSheet failed t.id sheet) ∨
      (strategy = .rollBack ∧ t = clearRange failed t.id) := by
  cases h with
  | copy id note => exact .inl (reissues_again failed id note)
  | reformulated change id note => exact .inl (reissues_mapFormula change id note)
  | waiting other id note => exact .inl (reissues_waitFor other id note)
  | piece sheet total hpiece => exact .inl (reissues_part sheet total hpiece)
  | creation id hsheet => exact .inr (.inl ⟨rfl, _, hsheet, rfl⟩)
  | clearing id => exact .inr (.inr ⟨rfl, rfl⟩)

section Fits

variable {p : Patch} {i : Nat}

/-- What a new step waits for besides is an earlier new step. -/
theorem Fits.earlier (h : p.Fits m failed parts) (ht : p.steps[i]? = some t) {d : StepId}
    (hd : d ∈ t.dependsOn) :
    d ∈ failed.dependsOn ∨ ∃ j < i, ∃ u, p.steps[j]? = some u ∧ d = u.id := by
  refine (h.dependsOn i t ht d hd).imp_right ?_
  rintro ⟨j, hj, rfl⟩
  obtain ⟨hi, -⟩ := List.getElem?_eq_some_iff.1 ht
  have hu : p.steps[j]? = some p.steps[j] := List.getElem?_eq_getElem (by omega)
  exact ⟨j, hj, _, hu, (h.id_eq j _ hu).symm⟩

theorem Fits.id_getLast? (h : p.Fits m failed parts) :
    p.steps.getLast?.map (·.id) = some (m.id p.steps.length) := by
  have hpos : 0 < p.steps.length := List.length_pos_iff.2 h.nonempty
  have hlast := List.getElem?_eq_getElem (l := p.steps) (i := p.steps.length - 1) (by omega)
  rw [List.getLast?_eq_getElem?, hlast, Option.map_some, h.id_eq _ _ hlast]
  congr 2
  omega

end Fits

theorem replacement_split_ne_none : (split m failed parts).replacement ≠ none := by
  unfold split
  cases pieces failed parts with
  | mk sheet areas =>
    dsimp only
    by_cases hfew : areas.length < 2
    · rw [if_pos hfew]
      exact Option.some_ne_none _
    · rw [if_neg hfew]
      intro hnone
      rw [Option.map_eq_none_iff, List.getLast?_eq_none_iff, List.map_eq_nil_iff,
        List.zipIdx_eq_nil_iff] at hnone
      rw [hnone] at hfew
      exact hfew (by decide)

/-- Nothing stands in for a step that is rolled back or given up. -/
theorem replacement_eq_none_iff : (ofStrategy m failed error parts strategy).replacement = none ↔
    strategy = .rollBack ∨ strategy = .abort := by
  cases strategy with
  | addPrerequisite =>
    simp only [ofStrategy, addPrerequisite]
    split <;> simp [retry, single]
  | split => simp [ofStrategy, replacement_split_ne_none]
  | _ => simp [ofStrategy, retry, guardFormula, rewriteFormula, rollBack, single]

end Patch

namespace Repair

/-- The new steps of a repair and what they have of the failed step. -/
structure Mends (m : Mint) (failed : Step) (error : String) (r : Repair) : Prop where
  nonempty : r.newSteps ≠ []
  pending : ∀ t ∈ r.newSteps, t.status = .pending
  minted : ∀ t ∈ r.newSteps, ∃ k, t.id = m.id k
  nodup : (r.newSteps.map (·.id)).Nodup
  earlier : ∀ (i : Nat) (t : Step), r.newSteps[i]? = some t → ∀ d ∈ t.dependsOn,
    d ∈ failed.dependsOn ∨ ∃ j < i, ∃ u : Step, r.newSteps[j]? = some u ∧ d = u.id
  replacement : r.replacement =
    if r.strategy = .rollBack then none else r.newSteps.getLast?.map (·.id)
  made : ∀ t ∈ r.newSteps, t.Reissues failed ∨
    (r.strategy = .addPrerequisite ∧ ∃ sheet, MissingSheet.find? error = some sheet ∧
      t = Patch.createSheet failed t.id sheet) ∨
    (r.strategy = .rollBack ∧ t = Patch.clearRange failed t.id)

variable {settings : Settings} {token : String} {failed : Step} {error : String}
  {context : RepairContext}

theorem patch_ofStep : (ofStep settings token failed error context).patch =
    Patch.ofStrategy ⟨context.count + 1, token⟩ failed (context.errorText error)
      settings.splitParts (ofStep settings token failed error context).strategy := rfl

theorem strategy_ofStep : (ofStep settings token failed error context).strategy =
    Strategy.choose (Failure.ofText (context.errorText error)) context.count
      settings.maxRepairs := by
  simp only [ofStep, Diagnosis.ofStep]

theorem mends_ofStep (h : context.count < settings.maxRepairs) :
    (ofStep settings token failed error context).Mends ⟨context.count + 1, token⟩ failed
      (context.errorText error) := by
  have hfits : (ofStep settings token failed error context).patch.Fits
      ⟨context.count + 1, token⟩ failed settings.splitParts := fits_ofStep h
  have hbuilt : ∀ t ∈ (ofStep settings token failed error context).newSteps,
      Patch.Built ⟨context.count + 1, token⟩ failed (context.errorText error) settings.splitParts
        (ofStep settings token failed error context).strategy t := fun t ht => Patch.built_of_mem ht
  have hnone : (ofStep settings token failed error context).patch.replacement = none ↔
      (ofStep settings token failed error context).strategy = .rollBack ∨
        (ofStep settings token failed error context).strategy = .abort := by
    rw [patch_ofStep]
    exact Patch.replacement_eq_none_iff
  have hgoesOn : (ofStep settings token failed error context).strategy ≠ .abort := fun habort =>
    absurd (strategy_eq_abort_iff.1 habort) (Nat.not_le.2 h)
  exact {
    nonempty := hfits.nonempty
    pending := fun t ht => (hbuilt t ht).status_eq
    minted := fun t ht => by
      obtain ⟨i, -, hi⟩ := hfits.mem_ids.1 (List.mem_map_of_mem ht)
      exact ⟨i + 1, hi⟩
    nodup := hfits.nodup_ids
    earlier := fun i t ht d hd => hfits.earlier ht hd
    replacement := by
      split
      · next hrollBack => exact hnone.2 (.inl hrollBack)
      · next hkeeps =>
        have hsome := hfits.replacement.resolve_left fun h =>
          (hnone.1 h).elim hkeeps hgoesOn
        exact hsome.trans hfits.id_getLast?.symm
    made := fun t ht => (hbuilt t ht).made }

/-- At the limit of repairs the repair gives up. Below it the new steps have the shape of a repair. -/
theorem ofStep_mends (settings : Settings) (token : String) (failed : Step) (error : String)
    (context : RepairContext) :
    let r := ofStep settings token failed error context
    (settings.maxRepairs ≤ context.count →
      r.strategy = .abort ∧ r.newSteps = [] ∧ r.replacement = none) ∧
    (context.count < settings.maxRepairs →
      r.strategy ≠ .abort ∧
        r.Mends ⟨context.count + 1, token⟩ failed (context.errorText error)) := by
  intro r
  constructor
  · intro h
    have habort : r.strategy = .abort := strategy_eq_abort_iff.2 h
    have hnone : r.patch.replacement = none := by
      rw [patch_ofStep, habort]
      rfl
    exact ⟨habort, newSteps_ofStep h, hnone⟩
  · intro h
    exact ⟨fun habort => absurd (strategy_eq_abort_iff.1 habort) (Nat.not_le.2 h), mends_ofStep h⟩

def priceLookup : Step where
  id := "s3"
  order := 3
  stage := .setFormulas
  action := Action.setFormula
  parameters := .object [("sheet", .str "Orders"), ("column", .str "C"),
    ("logicalFormula", .str "=XLOOKUP(@[Sku], Products[Sku], Products[Price])")]
  dependsOn := ["s2"]
  isWrite := true
  preview := some (.of "C2:C")
  status := .failed

/-- The first repair makes the missing sheet, and the fourth is none. -/
theorem ofStep_mends_lookup :
    let settings : Settings := {}
    let first := ofStep settings "TOKEN" priceLookup "Sheet 'Products' not found" ⟨0, [], none⟩
    let fourth := ofStep settings "TOKEN" priceLookup "Sheet 'Products' not found" ⟨3, [], none⟩
    (0 < settings.maxRepairs ∧ first.strategy = .addPrerequisite ∧ first.newSteps.length = 2 ∧
      first.Mends ⟨1, "TOKEN"⟩ priceLookup "Sheet 'Products' not found") ∧
    (settings.maxRepairs ≤ 3 ∧ fourth.strategy = .abort ∧ fourth.newSteps = []) := by
  intro settings first fourth
  have hbelow : 0 < settings.maxRepairs := by decide
  have hlimit : settings.maxRepairs ≤ 3 := by decide
  obtain ⟨-, hmends⟩ := (ofStep_mends settings "TOKEN" priceLookup "Sheet 'Products' not found"
    ⟨0, [], none⟩).2 hbelow
  obtain ⟨habort, hnone, -⟩ := (ofStep_mends settings "TOKEN" priceLookup
    "Sheet 'Products' not found" ⟨3, [], none⟩).1 hlimit
  have htext : RepairContext.errorText ⟨0, [], none⟩ "Sheet 'Products' not found" =
      "Sheet 'Products' not found" := by decide +kernel
  rw [htext] at hmends
  exact ⟨⟨hbelow, by decide +kernel, by decide +kernel, hmends⟩, hlimit, habort, hnone⟩

end Repair

end WorkbookPlan
