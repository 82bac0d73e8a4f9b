import WorkbookPlan.Proofs.Repair.Offspring
import WorkbookPlan.Proofs.Run.Termination

/-! Where the steps of a run come from. Each step of its plan was there before, or a repair has made
it out of a step that failed; so what holds of the first steps and is handed down by repairs holds
of all. -/
namespace WorkbookPlan

open Step Relation

/-- A new step as it is put behind others. -/
def Step.placed (order : Nat) (s : Step) : Step :=
  { s with order := order, status := .pending }

namespace Plan

variable {settings : Settings} {tokens : Nat → String} {p q : Plan} {t : Step}

theorem mem_renumber {order : Nat} {steps : List Step} (h : t ∈ renumber order steps) :
    ∃ s ∈ steps, ∃ n, t = s.placed n := by
  obtain ⟨i, hi⟩ := List.mem_iff_getElem?.1 h
  obtain ⟨place, hplace⟩ := getElem?_renumber order steps i
  obtain ⟨s, hs, rfl⟩ := Option.map_eq_some_iff.1 (hplace.symm.trans hi)
  exact ⟨s, List.mem_of_getElem? hs, _, rfl⟩

/-- Where a step of the second plan comes from, if the plan comes from the first one by a move. -/
inductive Origin (tokens : Nat → String) (p q : Plan) : Step → Prop where
  | old {s} (status : Status) : s ∈ p.steps → Origin tokens p q (s.withStatus status)
  | made {s t} (order : Nat) : s ∈ p.steps → s.withStatus .failed ∈ q.steps →
      Patch.Offspring s t → Minted tokens p.repairCount t.id → Origin tokens p q (t.placed order)

theorem Advances.origin {status : Status} {which : Step → Bool} {new : List Step}
    (h : Advances p q status which new) (hnew : t ∈ new → Origin tokens p q t) (ht : t ∈ q.steps) :
    Origin tokens p q t := by
  rcases h.mem_steps.1 ht with ⟨s, hs, -, rfl⟩ | ⟨hold, -⟩ | hmem
  · exact .old status hs
  · exact .old t.status hold
  · exact hnew hmem

theorem Move.origin (h : Move settings tokens p q) (hp : p.Tidy tokens) (ht : t ∈ q.steps) :
    Origin tokens p q t := by
  cases h with
  | skip => exact (advances_skipRound hp.distinct).origin (fun h => nomatch h) ht
  | complete _ hs => exact (advances_complete hs hp.distinct).origin (fun h => nomatch h) ht
  | @repair s error _ _ hs hcontext hcount =>
    have hfits := fits_of_count tokens s error hcontext hcount
    have hadvances := hp.advances_of_fits hs hfits
    refine hadvances.origin (fun hmem => ?_) ht
    obtain ⟨u, hu, n, rfl⟩ := mem_renumber hmem
    have hready := (nextReady?_eq_some hs).1
    exact .made n hready (hadvances.mem_steps.2 (.inl ⟨s, hready, by simp, rfl⟩))
      (Repair.offspring_of_mem_newSteps hu)
      (minted_of_mem_newSteps hfits (List.mem_map_of_mem hu)).1

/-- A step that has failed stays as it is. -/
theorem Move.mem_of_failed (h : Move settings tokens p q) (hp : p.Tidy tokens) {s : Step}
    (hs : s ∈ p.steps) (hfailed : s.status = .failed) : s ∈ q.steps := by
  obtain ⟨status, which, new, hadvances⟩ := h.advances hp
  cases hwhich : which s with
  | false => exact hadvances.mem_steps.2 (.inr (.inl ⟨hs, hwhich⟩))
  | true =>
    have hpending := hadvances.pending s hs hwhich
    rw [isPending, hfailed] at hpending
    cases hpending

/-- What holds of the steps that a plan begins with, whatever their states, and is handed down from
a failed step to what a repair makes of it, holds of all steps that it gets in a run. -/
theorem Reaches.forall_steps (h : Reaches settings tokens p q) (hp : p.Tidy tokens)
    {P : Step → Prop} (hstatus : ∀ s status, P s → P (s.withStatus status))
    (hmade : ∀ s t order, P s → Patch.Offspring s t → Minted tokens p.repairCount t.id →
      P (t.placed order))
    (hall : ∀ s ∈ p.steps, P s) : ∀ s ∈ q.steps, P s := by
  induction h with
  | refl => exact hall
  | tail hreach hmove ih =>
    intro t ht
    have htidy := Reaches.tidy hreach hp
    cases hmove.origin htidy ht with
    | old status hs => exact hstatus _ status (ih _ hs)
    | made order hs _ hoffspring hminted =>
      exact hmade _ _ order (ih _ hs) hoffspring
        (hminted.mono (Reaches.evolves hreach hp).count)

section Handovers

variable {σ : Type _} {execute : Executor σ} {spare : Nat} {kept : σ}

/-- A step is handed out of a plan that the run reaches. -/
theorem reaches_of_handover (hp : p.Tidy tokens) {h : Plan × Step}
    (hh : h ∈ p.handovers settings tokens execute spare kept) :
    Reaches settings tokens (p.opened kept).plan h.1 ∧ h.1.nextReady? = some h.2 := by
  obtain ⟨q, hq, hh⟩ := List.mem_filterMap.1 hh
  obtain ⟨hplan, hready⟩ := Run.handover?_eq_some hh
  have hopened : (p.opened kept).plan.Tidy tokens := tidy_opened hp
  cases hrefusal : p.refusal? with
  | some e => simp [starts, hrefusal] at hq
  | none =>
    rw [starts_eq hrefusal] at hq
    have hreach := Run.reaches_of_again (Run.mem_starts hq) hopened
    have htidy := Reaches.tidy hreach hopened
    rw [hplan]
    exact ⟨hreach.trans (Run.skipDoomed_reaches settings tokens q htidy.distinct), hready⟩

end Handovers

end Plan

end WorkbookPlan
