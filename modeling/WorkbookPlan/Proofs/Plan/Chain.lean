import WorkbookPlan.Proofs.Plan.Marking

/-! Chains of stand-ins. The state of a dependency is that of the step at the end of its chain; the
bound on the walk never cuts it short. A state other than waiting stays while the plan grows. -/
namespace WorkbookPlan.Plan

open Step

theorem dependencyState_cases (p : Plan) (id : StepId) :
    p.dependencyState id = .satisfied ∨ p.dependencyState id = .waiting ∨
      p.dependencyState id = .dead := by
  cases p.dependencyState id <;> simp

/-- The state at the end of a chain, followed without any bound. -/
inductive Settles (p : Plan) : StepId → DependencyState → Prop where
  | missing {id} : p.step? id = none → Settles p id .dead
  | completed {id s} : p.step? id = some s → s.status = .completed → Settles p id .satisfied
  | waiting {id s} : p.step? id = some s → s.status = .pending ∨ s.status = .running →
      Settles p id .waiting
  | lost {id s} : p.step? id = some s → s.status = .failed ∨ s.status = .skipped →
      p.supersessions.get? id = none → Settles p id .dead
  | passed {id s next state} : p.step? id = some s → s.status = .failed ∨ s.status = .skipped →
      p.supersessions.get? id = some next → Settles p next state → Settles p id state

/-- Only failed steps have a stand-in, and it is a step further behind. -/
structure Linked (p : Plan) : Prop where
  failed : ∀ {a b}, p.supersessions.get? a = some b → ∃ s, p.step? a = some s ∧ s.status = .failed
  behind : ∀ {a b}, p.supersessions.get? a = some b → b ∈ p.ids ∧ p.ids.idxOf a < p.ids.idxOf b

theorem linked_of_no_stand_ins {p : Plan} (h : ∀ a, p.supersessions.get? a = none) : p.Linked where
  failed hab := by simp [h] at hab
  behind hab := by simp [h] at hab

theorem stateWithin_settles {p : Plan}
    (hp : ∀ {a b}, p.supersessions.get? a = some b → p.ids.idxOf a < p.ids.idxOf b) (n : Nat)
    {id : StepId} (hn : p.ids.length < n + p.ids.idxOf id) : p.Settles id (p.stateWithin n id) := by
  induction n generalizing id with
  | zero =>
    have hle := List.idxOf_le_length (a := id) (l := p.ids)
    omega
  | succ n ih =>
    unfold stateWithin
    cases hs : p.step? id with
    | none => exact .missing hs
    | some s =>
      dsimp only
      cases hstatus : s.status with
      | completed => exact .completed hs hstatus
      | pending => exact .waiting hs (.inl hstatus)
      | running => exact .waiting hs (.inr hstatus)
      | failed | skipped =>
        cases hnext : p.supersessions.get? id with
        | none => exact .lost hs (by simp [hstatus]) hnext
        | some next =>
          have hbehind := hp hnext
          exact .passed hs (by simp [hstatus]) hnext (ih (by omega))

theorem Linked.settles {p : Plan} (hp : p.Linked) (id : StepId) :
    p.Settles id (p.dependencyState id) := by
  have hlength : p.ids.length = p.steps.length := List.length_map ..
  exact stateWithin_settles (fun h => (hp.behind h).2) _ (by omega)

theorem Settles.unique {p : Plan} {id : StepId} {a b : DependencyState} (ha : p.Settles id a)
    (hb : p.Settles id b) : a = b := by
  induction ha with
  | missing h => cases hb <;> grind
  | completed h hs => cases hb <;> grind
  | waiting h hs => cases hb <;> grind
  | lost h hs hn => cases hb <;> grind
  | passed h hs hn _ ih =>
    cases hb with
    | passed _ _ hn' hb =>
      rw [hn] at hn'
      exact ih (Option.some.inj hn' ▸ hb)
    | _ => grind

theorem Linked.dependencyState_eq_iff {p : Plan} (hp : p.Linked) {id : StepId}
    {state : DependencyState} : p.dependencyState id = state ↔ p.Settles id state :=
  ⟨fun h => h ▸ hp.settles id, fun h => (hp.settles id).unique h⟩

theorem stateWithin_congr {p q : Plan} (hsteps : p.steps = q.steps)
    (hlinks : p.supersessions = q.supersessions) (n : Nat) (id : StepId) :
    p.stateWithin n id = q.stateWithin n id := by
  induction n generalizing id with
  | zero => rfl
  | succ n ih => simp only [stateWithin, step?, hsteps, hlinks, ih]

theorem dependencyState_congr {p q : Plan} (hsteps : p.steps = q.steps)
    (hlinks : p.supersessions = q.supersessions) (id : StepId) :
    p.dependencyState id = q.dependencyState id := by
  rw [dependencyState, dependencyState, hsteps, stateWithin_congr hsteps hlinks]

/-- How a plan may change: steps stay in it with their dependencies, and a step that is not pending
any more keeps its state and its stand-in. -/
structure Grows (p q : Plan) : Prop where
  step : ∀ {id s}, p.step? id = some s → ∃ t, q.step? id = some t ∧
    t.dependsOn = s.dependsOn ∧ (s.isPending = false → t.status = s.status)
  link : ∀ {id s}, p.step? id = some s → s.isPending = false →
    q.supersessions.get? id = p.supersessions.get? id

theorem Grows.refl (p : Plan) : Grows p p where
  step h := ⟨_, h, rfl, fun _ => rfl⟩
  link _ _ := rfl

theorem isPending_eq_false_of_lost {s : Step} (h : s.status = .failed ∨ s.status = .skipped) :
    s.isPending = false := by
  rcases h with h | h <;> simp [isPending, h]

theorem Grows.trans {p q r : Plan} (hpq : Grows p q) (hqr : Grows q r) : Grows p r where
  step h := by
    obtain ⟨t, ht, hdeps, hstatus⟩ := hpq.step h
    obtain ⟨u, hu, hdeps', hstatus'⟩ := hqr.step ht
    refine ⟨u, hu, hdeps'.trans hdeps, fun hs => ?_⟩
    rw [hstatus' (by simpa [isPending, hstatus hs] using hs), hstatus hs]
  link h hs := by
    obtain ⟨t, ht, -, hstatus⟩ := hpq.step h
    rw [hqr.link ht (by simpa [isPending, hstatus hs] using hs), hpq.link h hs]

/-- A name keeps its state, unless it waits or a step of that name is new. -/
theorem Settles.grows {p q : Plan} (hg : Grows p q) (hp : p.Linked) {id : StepId}
    {state : DependencyState} (h : p.Settles id state) (hstate : state ≠ .waiting)
    (hid : id ∈ q.ids → id ∈ p.ids) : q.Settles id state := by
  induction h with
  | missing h =>
    exact .missing (step?_eq_none_iff.2 fun hq => step?_eq_none_iff.1 h (hid hq))
  | completed h hs =>
    obtain ⟨t, ht, -, hstatus⟩ := hg.step h
    exact .completed ht ((hstatus (by simp [isPending, hs])).trans hs)
  | waiting => exact absurd rfl hstate
  | lost h hs hn =>
    have hpending := isPending_eq_false_of_lost hs
    obtain ⟨t, ht, -, hstatus⟩ := hg.step h
    exact .lost ht (hstatus hpending ▸ hs) ((hg.link h hpending).trans hn)
  | passed h hs hn _ ih =>
    have hpending := isPending_eq_false_of_lost hs
    obtain ⟨t, ht, -, hstatus⟩ := hg.step h
    exact .passed ht (hstatus hpending ▸ hs) ((hg.link h hpending).trans hn)
      (ih hstate fun _ => (hp.behind hn).1)

theorem Grows.dependencyState_eq {p q : Plan} (hg : Grows p q) (hp : p.Linked) (hq : q.Linked)
    {id : StepId} (hid : id ∈ q.ids → id ∈ p.ids) (h : p.dependencyState id ≠ .waiting) :
    q.dependencyState id = p.dependencyState id :=
  hq.dependencyState_eq_iff.2 ((hp.settles id).grows hg hp h hid)

/-- Pending steps are marked, new steps come behind, and only a step that has just failed gets a
stand-in, which is one of the new steps. -/
structure Advances (p q : Plan) (status : Status) (which : Step → Bool) (new : List Step) :
    Prop where
  steps : q.steps = markWhere status which p.steps ++ new
  distinct : q.ids.Nodup
  status_ne : status ≠ .pending
  pending : ∀ s ∈ p.steps, which s = true → s.isPending = true
  new_pending : ∀ s ∈ new, s.status = .pending
  link : ∀ s ∈ p.steps, s.isPending = false →
    q.supersessions.get? s.id = p.supersessions.get? s.id
  linked : ∀ {a b}, q.supersessions.get? a = some b → p.supersessions.get? a = some b ∨
    b ∈ new.map (·.id) ∧ ∃ s ∈ p.steps, s.id = a ∧ which s = true ∧ status = .failed

namespace Advances

variable {p q : Plan} {status : Status} {which : Step → Bool} {new : List Step}

theorem ids_eq (h : Advances p q status which new) : q.ids = p.ids ++ new.map (·.id) := by
  rw [Plan.ids, h.steps, List.map_append, map_id_markWhere, Plan.ids]

theorem mem_steps (h : Advances p q status which new) {t : Step} : t ∈ q.steps ↔
    (∃ s ∈ p.steps, which s = true ∧ t = s.withStatus status) ∨
      (t ∈ p.steps ∧ which t = false) ∨ t ∈ new := by
  rw [h.steps, List.mem_append, mem_markWhere]
  constructor
  · rintro (⟨s, hs, ⟨hw, rfl⟩ | ⟨hw, rfl⟩⟩ | ht)
    · exact .inl ⟨s, hs, hw, rfl⟩
    · exact .inr (.inl ⟨hs, hw⟩)
    · exact .inr (.inr ht)
  · rintro (⟨s, hs, hw, rfl⟩ | ⟨ht, hw⟩ | ht)
    · exact .inl ⟨s, hs, .inl ⟨hw, rfl⟩⟩
    · exact .inl ⟨t, ht, .inr ⟨hw, rfl⟩⟩
    · exact .inr ht

theorem step?_of_marked (h : Advances p q status which new) {s : Step} (hs : s ∈ p.steps)
    (hw : which s = true) : q.step? s.id = some (s.withStatus status) :=
  step?_of_mem (s := s.withStatus status) h.distinct (h.mem_steps.2 (.inl ⟨s, hs, hw, rfl⟩))

/-- The pending steps lose the marked ones and gain the new ones. -/
theorem length_pending (h : Advances p q status which new) :
    q.pending.length + (p.steps.filter which).length = p.pending.length + new.length := by
  have hold := length_pending_markWhere h.status_ne h.pending
  have hnew : new.filter (·.isPending) = new :=
    List.filter_eq_self.2 fun s hs => by simp [isPending, h.new_pending s hs]
  simp only [Plan.pending, h.steps, List.filter_append, List.length_append, hnew]
  omega

theorem grows (h : Advances p q status which new) : Grows p q where
  step {id s} hs := by
    obtain ⟨hmem, rfl⟩ := step?_eq_some hs
    cases hw : which s with
    | true =>
      refine ⟨s.withStatus status, h.step?_of_marked hmem hw, rfl, fun hp => ?_⟩
      rw [h.pending s hmem hw] at hp
      cases hp
    | false =>
      have ht : s ∈ q.steps := h.mem_steps.2 (.inr (.inl ⟨hmem, hw⟩))
      exact ⟨s, step?_of_mem h.distinct ht, rfl, fun _ => rfl⟩
  link {id s} hs hp := by
    obtain ⟨hmem, rfl⟩ := step?_eq_some hs
    exact h.link s hmem hp

theorem linked_of_linked (h : Advances p q status which new) (hp : p.Linked) : q.Linked where
  failed hab := by
    rcases h.linked hab with hold | ⟨-, s, hs, rfl, hw, rfl⟩
    · obtain ⟨s, hs, hfailed⟩ := hp.failed hold
      obtain ⟨t, ht, -, hstatus⟩ := h.grows.step hs
      exact ⟨t, ht, (hstatus (by simp [isPending, hfailed])).trans hfailed⟩
    · exact ⟨s.withStatus .failed, h.step?_of_marked hs hw, rfl⟩
  behind {a b} hab := by
    have hdistinct := h.distinct
    rw [h.ids_eq] at hdistinct ⊢
    rcases h.linked hab with hold | ⟨hb, s, hs, rfl, -⟩
    · obtain ⟨hb, hlt⟩ := hp.behind hold
      have ha : a ∈ p.ids := by
        obtain ⟨s, hs, -⟩ := hp.failed hold
        obtain ⟨hmem, rfl⟩ := step?_eq_some hs
        exact id_mem_ids hmem
      refine ⟨List.mem_append_left _ hb, ?_⟩
      rwa [List.idxOf_append_of_mem ha, List.idxOf_append_of_mem hb]
    · have hb' : b ∉ p.ids := fun hn => (List.nodup_append.1 hdistinct).2.2 b hn b hb rfl
      have ha := List.idxOf_lt_length_of_mem (id_mem_ids hs)
      refine ⟨List.mem_append_right _ hb, ?_⟩
      rw [List.idxOf_append_of_mem (id_mem_ids hs), List.idxOf_append_of_notMem hb']
      omega

end Advances

end WorkbookPlan.Plan
