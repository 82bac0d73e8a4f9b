import Mathlib.Data.List.Nodup
import WorkbookPlan.Proofs.Repair.Mint
import WorkbookPlan.Repair.Basic

/-! What the new steps of all repairs have in common, whatever the strategy. -/
namespace WorkbookPlan

namespace Strategy

theorem below_ne_abort (isFirst : Bool) (failure : Failure) : below isFirst failure ≠ abort := by
  cases failure <;> cases isFirst <;> decide

theorem choose_eq_abort_iff {failure : Failure} {count limit : Nat} :
    choose failure count limit = abort ↔ limit ≤ count := by
  unfold choose
  split
  · simp [*]
  · simp [*, below_ne_abort]

end Strategy

namespace Patch

/-- New steps in a row: they bear the names of the repair in order, each waits for the one before it
and otherwise only for earlier ones and for what the failed step waited for, and none but the last
stands in for the failed step. -/
structure Fits (m : Mint) (failed : Step) (parts : Nat) (p : Patch) : Prop where
  nonempty : p.steps ≠ []
  length_le : p.steps.length ≤ max 2 parts
  id_eq : ∀ i s, p.steps[i]? = some s → s.id = m.id (i + 1)
  dependsOn : ∀ i s, p.steps[i]? = some s →
    ∀ d ∈ s.dependsOn, d ∈ failed.dependsOn ∨ ∃ j < i, d = m.id (j + 1)
  chained : ∀ i s, p.steps[i + 1]? = some s → m.id (i + 1) ∈ s.dependsOn
  replacement : p.replacement = none ∨ p.replacement = some (m.id p.steps.length)

variable {m : Mint} {failed : Step} {parts : Nat}

theorem Fits.map_id {p : Patch} (h : p.Fits m failed parts) :
    p.steps.map (·.id) = (List.range p.steps.length).map fun i => m.id (i + 1) := by
  apply List.ext_getElem?
  intro i
  rw [List.getElem?_map, List.getElem?_map]
  by_cases hi : i < p.steps.length
  · simp [hi, h.id_eq i _ (List.getElem?_eq_getElem hi)]
  · simp [hi]

theorem Fits.nodup_ids {p : Patch} (h : p.Fits m failed parts) : (p.steps.map (·.id)).Nodup := by
  rw [h.map_id]
  refine List.nodup_range.map fun i j he => ?_
  have hsucc := m.id_injective he
  omega

theorem Fits.mem_ids {p : Patch} (h : p.Fits m failed parts) {id : StepId} :
    id ∈ p.steps.map (·.id) ↔ ∃ i < p.steps.length, id = m.id (i + 1) := by
  simp [h.map_id, eq_comm]

private theorem eq_of_getElem?_singleton {s t : Step} {i : Nat} (h : [s][i]? = some t) :
    i = 0 ∧ s = t := by
  rw [List.getElem?_singleton] at h
  split at h
  · next hi => exact ⟨hi, Option.some.inj h⟩
  · cases h

/-- One new step fits if it waits for nothing but what the failed one did. -/
theorem fits_of_one {s : Step} {r : Option StepId} (hid : s.id = m.id 1)
    (hdeps : s.dependsOn ⊆ failed.dependsOn) (hr : r = none ∨ r = some s.id) :
    Fits m failed parts ⟨[s], r⟩ where
  nonempty := List.cons_ne_nil s []
  length_le := Nat.le_trans (by decide : 1 ≤ 2) (Nat.le_max_left 2 parts)
  id_eq i t ht := by
    obtain ⟨rfl, rfl⟩ := eq_of_getElem?_singleton ht
    exact hid
  dependsOn i t ht d hd := by
    obtain ⟨rfl, rfl⟩ := eq_of_getElem?_singleton ht
    exact .inl (hdeps hd)
  chained i t ht := by
    obtain ⟨hi, -⟩ := eq_of_getElem?_singleton ht
    omega
  replacement := by
    rw [hid] at hr
    exact hr

/-- Two new steps fit if the second waits for the first besides. -/
theorem fits_of_two {s t : Step} {r : Option StepId} (hs : s.id = m.id 1) (ht : t.id = m.id 2)
    (hfirst : s.dependsOn ⊆ failed.dependsOn)
    (hsecond : ∀ d, d ∈ t.dependsOn ↔ d ∈ failed.dependsOn ∨ d = s.id)
    (hr : r = none ∨ r = some t.id) : Fits m failed parts ⟨[s, t], r⟩ where
  nonempty := List.cons_ne_nil s [t]
  length_le := Nat.le_max_left 2 parts
  id_eq i u hu := by
    match i with
    | 0 => exact Option.some.inj hu ▸ hs
    | 1 => exact Option.some.inj hu ▸ ht
    | i + 2 => cases hu
  dependsOn i u hu d hd := by
    match i with
    | 0 =>
      obtain rfl := Option.some.inj hu
      exact .inl (hfirst hd)
    | 1 =>
      obtain rfl := Option.some.inj hu
      exact ((hsecond d).1 hd).imp_right fun he => ⟨0, Nat.one_pos, he.trans hs⟩
    | i + 2 => cases hu
  chained i u hu := by
    match i with
    | 0 =>
      obtain rfl := Option.some.inj hu
      exact (hsecond _).2 (.inr hs.symm)
    | i + 1 => cases hu
  replacement := by
    rw [ht] at hr
    exact hr

@[simp] theorem id_mapFormula (change : String → Option String) (s : Step) :
    (mapFormula change s).id = s.id := by
  unfold mapFormula
  split <;> rfl

@[simp] theorem dependsOn_mapFormula (change : String → Option String) (s : Step) :
    (mapFormula change s).dependsOn = s.dependsOn := by
  unfold mapFormula
  split <;> rfl

theorem fits_retry : (retry m failed).Fits m failed parts :=
  fits_of_one rfl (List.Subset.refl _) (.inr rfl)

theorem fits_guardFormula : (guardFormula m failed).Fits m failed parts :=
  fits_of_one (by simp [again]) (by simp [again]) (.inr rfl)

theorem fits_rewriteFormula : (rewriteFormula m failed).Fits m failed parts :=
  fits_of_one (by simp [again]) (by simp [again]) (.inr rfl)

theorem fits_rollBack : (rollBack m failed).Fits m failed parts :=
  fits_of_one rfl (List.nil_subset _) (.inl rfl)

theorem mem_dependsOn_waitFor {id d : StepId} {s : Step} :
    d ∈ (waitFor id s).dependsOn ↔ d ∈ s.dependsOn ∨ d = id := by
  unfold waitFor
  split
  · next h =>
    have hid : id ∈ s.dependsOn := by simpa using h
    constructor
    · exact .inl
    · rintro (hd | rfl)
      · exact hd
      · exact hid
  · simp

@[simp] theorem id_waitFor (id : StepId) (s : Step) : (waitFor id s).id = s.id := by
  unfold waitFor
  split <;> rfl

theorem fits_addPrerequisite (error : String) :
    (addPrerequisite m failed error).Fits m failed parts := by
  unfold addPrerequisite
  split
  · exact fits_retry
  · next sheet _ =>
    refine fits_of_two rfl ?_ (List.nil_subset _) (fun d => ?_) (.inr ?_)
    · simp [again]
    · rw [mem_dependsOn_waitFor, again]
    · simp [again]

theorem length_pieces_le (failed : Step) (parts : Nat) :
    (pieces failed parts).2.length ≤ max 1 parts := by
  unfold pieces
  split
  · simp
  · split
    · simp
    · exact Sheet.Area.length_splitRows_le _ parts

section Parts

variable {sheet : Option (List Char)} {areas : List Sheet.Area}

@[simp] theorem id_part (total : Nat) (piece : Sheet.Area × Nat) :
    (part m failed sheet total piece).id = m.id (piece.2 + 1) := rfl

theorem mem_dependsOn_part {total i : Nat} {area : Sheet.Area} {d : StepId} :
    d ∈ (part m failed sheet total (area, i)).dependsOn ↔
      i = 0 ∧ d ∈ failed.dependsOn ∨ 0 < i ∧ d = m.id i := by
  by_cases hi : i = 0
  · simp [part, hi]
  · simp [part, hi, Nat.pos_of_ne_zero hi]

theorem exists_part {i : Nat} {s : Step}
    (h : (areas.zipIdx.map (part m failed sheet areas.length))[i]? = some s) :
    ∃ area, part m failed sheet areas.length (area, i) = s := by
  rw [List.getElem?_map, List.getElem?_zipIdx, Option.map_map] at h
  obtain ⟨area, -, hs⟩ := Option.map_eq_some_iff.1 h
  exact ⟨area, by simpa using hs⟩

/-- Each part but the first waits for the one before it. -/
theorem fits_parts (hmany : 2 ≤ areas.length) (hle : areas.length ≤ max 1 parts) :
    let steps := areas.zipIdx.map (part m failed sheet areas.length)
    Fits m failed parts ⟨steps, steps.getLast?.map (·.id)⟩ where
  nonempty h := by
    have hlength := congrArg List.length h
    rw [List.length_map, List.length_zipIdx, List.length_nil] at hlength
    omega
  length_le := by
    rw [List.length_map, List.length_zipIdx]
    omega
  id_eq i s hs := by
    obtain ⟨area, rfl⟩ := exists_part hs
    exact id_part _ _
  dependsOn i s hs d hd := by
    obtain ⟨area, rfl⟩ := exists_part hs
    rcases mem_dependsOn_part.1 hd with ⟨-, hd⟩ | ⟨hi, rfl⟩
    · exact .inl hd
    · have hnumber : i - 1 + 1 = i := by omega
      exact .inr ⟨i - 1, by omega, by rw [hnumber]⟩
  chained i s hs := by
    obtain ⟨area, rfl⟩ := exists_part hs
    exact mem_dependsOn_part.2 (.inr ⟨Nat.succ_pos i, rfl⟩)
  replacement := by
    have hlast : areas.length - 1 < areas.length := by omega
    have hnumber : areas.length - 1 + 1 = areas.length := by omega
    exact .inr (by simp [List.getLast?_eq_getElem?, hlast, hnumber])

end Parts

theorem fits_split : (split m failed parts).Fits m failed parts := by
  have hle := length_pieces_le failed parts
  unfold split
  cases hpieces : pieces failed parts with
  | mk sheet areas =>
    rw [hpieces] at hle
    dsimp only at hle ⊢
    by_cases hfew : areas.length < 2
    · rw [if_pos hfew]
      exact fits_retry
    · rw [if_neg hfew]
      exact fits_parts (by omega) hle

/-- How the new steps of a strategy come about. -/
inductive Built (m : Mint) (failed : Step) (error : String) (parts : Nat) :
    Strategy → Step → Prop where
  | copy {strategy} (id : StepId) (note : String) :
      Built m failed error parts strategy (again failed id note)
  | reformulated {strategy} (change : String → Option String) (id : StepId) (note : String) :
      Built m failed error parts strategy (mapFormula change (again failed id note))
  | waiting {strategy} (other id : StepId) (note : String) :
      Built m failed error parts strategy (waitFor other (again failed id note))
  | piece {strategy} (sheet : Option (List Char)) (total : Nat) {piece : Sheet.Area × Nat} :
      piece.1 ∈ (pieces failed parts).2 →
      Built m failed error parts strategy (part m failed sheet total piece)
  | creation (id : StepId) {sheet : String} : MissingSheet.find? error = some sheet →
      Built m failed error parts .addPrerequisite (createSheet failed id sheet)
  | clearing (id : StepId) : Built m failed error parts .rollBack (clearRange failed id)

theorem built_of_mem {error : String} {strategy : Strategy} {t : Step}
    (h : t ∈ (ofStrategy m failed error parts strategy).steps) :
    Built m failed error parts strategy t := by
  have hretry {strategy : Strategy} (h : t ∈ (retry m failed).steps) :
      Built m failed error parts strategy t := by
    obtain rfl := List.mem_singleton.1 h
    exact .copy _ _
  cases strategy with
  | retry => exact hretry h
  | guardFormula =>
    obtain rfl := List.mem_singleton.1 h
    exact .reformulated _ _ _
  | addPrerequisite =>
    simp only [ofStrategy, addPrerequisite] at h
    split at h
    · exact hretry h
    · next sheet hsheet =>
      rcases List.mem_cons.1 h with rfl | h
      · exact .creation _ hsheet
      · obtain rfl := List.mem_singleton.1 h
        exact .waiting _ _ _
  | split =>
    simp only [ofStrategy, split] at h
    split at h
    · exact hretry h
    · obtain ⟨piece, hpiece, rfl⟩ := List.mem_map.1 h
      exact .piece _ _ (List.fst_mem_of_mem_zipIdx hpiece)
  | rewriteFormula =>
    obtain rfl := List.mem_singleton.1 h
    exact .reformulated _ _ _
  | rollBack =>
    obtain rfl := List.mem_singleton.1 h
    exact .clearing _
  | abort => cases h

/-- Whatever the strategy, unless it gives up. -/
theorem fits_ofStrategy (error : String) {strategy : Strategy} (h : strategy ≠ .abort) :
    (ofStrategy m failed error parts strategy).Fits m failed parts := by
  cases strategy with
  | retry => exact fits_retry
  | guardFormula => exact fits_guardFormula
  | addPrerequisite => exact fits_addPrerequisite error
  | split => exact fits_split
  | rewriteFormula => exact fits_rewriteFormula
  | rollBack => exact fits_rollBack
  | abort => exact absurd rfl h

end Patch

namespace Repair

variable {settings : Settings} {token : String} {failed : Step} {error : String}
  {context : RepairContext}

def patch (r : Repair) : Patch :=
  ⟨r.newSteps, r.replacement⟩

theorem strategy_eq_abort_iff :
    (ofStep settings token failed error context).strategy = .abort ↔
      settings.maxRepairs ≤ context.count :=
  Strategy.choose_eq_abort_iff

theorem canContinue_iff :
    (ofStep settings token failed error context).canContinue = true ↔
      context.count < settings.maxRepairs := by
  have hne : (ofStep settings token failed error context).canContinue = true ↔
      (ofStep settings token failed error context).strategy ≠ .abort := bne_iff_ne
  rw [hne, ne_eq, strategy_eq_abort_iff, Nat.not_le]

/-- A repair that gives up has no new steps. -/
theorem newSteps_ofStep (h : settings.maxRepairs ≤ context.count) :
    (ofStep settings token failed error context).newSteps = [] := by
  have habort : (ofStep settings token failed error context).strategy = .abort :=
    strategy_eq_abort_iff.2 h
  have hsteps : (ofStep settings token failed error context).newSteps =
      (Patch.ofStrategy _ failed _ settings.splitParts
        (ofStep settings token failed error context).strategy).steps := rfl
  rw [hsteps, habort]
  rfl

theorem fits_ofStep (h : context.count < settings.maxRepairs) :
    (ofStep settings token failed error context).patch.Fits ⟨context.count + 1, token⟩ failed
      settings.splitParts := by
  refine Patch.fits_ofStrategy _ fun he => ?_
  have := Strategy.choose_eq_abort_iff.1 he
  omega

end Repair

end WorkbookPlan
