import WorkbookPlan.Proofs.Plan.Gate
import WorkbookPlan.Proofs.Run.Calculation
import WorkbookPlan.Proofs.Run.Origin

/-! Actions that are not allowed. None is in a plan that is built, but repairs are not asked: they
may create sheets and clear ranges all the same. -/
namespace WorkbookPlan

open Step Relation

namespace Plan

variable {settings : Settings} {tokens : Nat → String} {p q : Plan}

theorem ordered_build (settings : Settings) (request : PlanRequest) (schema : Option Schema)
    (review : Option SchemaReview) : Ordered (build settings request schema review).steps := by
  unfold build
  dsimp only
  split
  · exact .nil
  · exact Draft.ordered_ofSchema? settings schema

theorem isOver_build (settings : Settings) (request : PlanRequest) (schema : Option Schema)
    (review : Option SchemaReview) :
    (build settings request schema review).phase.isOver = false := by
  unfold build
  dsimp only
  split <;> rfl

theorem allowed_build (settings : Settings) (request : PlanRequest) (schema : Option Schema)
    (review : Option SchemaReview) : ∀ s ∈ (build settings request schema review).steps,
      s.action ∉ settings.disallowedActions := by
  unfold build
  dsimp only
  split
  · exact fun _ h => nomatch h
  · next hnone => exact (Draft.obstacle?_eq_none_iff.1 hnone).2

/-- The action is allowed, or a repair has put the step in, to create a sheet or to clear a range.
-/
def Permits (settings : Settings) (tokens : Nat → String) (p : Plan) (s : Step) : Prop :=
  s.action ∉ settings.disallowedActions ∨
    Minted tokens p.repairCount s.id ∧
      (s.action = Action.createSheet ∨ s.action = Action.clearRange)

theorem Permits.placed {s t : Step} (h : p.Permits settings tokens s) (order : Nat)
    (ht : Patch.Offspring s t) (hminted : Minted tokens p.repairCount t.id) :
    p.Permits settings tokens (t.placed order) := by
  cases ht with
  | copy hfollows =>
    rcases h with hallowed | ⟨-, haction⟩
    · exact .inl (hfollows.action ▸ hallowed)
    · exact .inr ⟨hminted, hfollows.action ▸ haction⟩
  | creation => exact .inr ⟨hminted, .inl rfl⟩
  | clearing => exact .inr ⟨hminted, .inr rfl⟩

theorem Reaches.permits (h : Reaches settings tokens p q) (hp : p.Tidy tokens)
    (hall : ∀ s ∈ p.steps, s.action ∉ settings.disallowedActions) :
    ∀ s ∈ q.steps, p.Permits settings tokens s :=
  h.forall_steps hp (fun _ _ hs => hs) (fun _ _ order hs => hs.placed order)
    fun s hs => .inl (hall s hs)

variable {σ : Type _}

/-- Each step handed out has an action that is allowed, or was put in by a repair to create a sheet
or to clear a range. -/
theorem build_run_allowed (settings : Settings) (request : PlanRequest) (schema : Option Schema)
    (review : Option SchemaReview) (tokens : Nat → String) (execute : Executor σ) (spare : Nat)
    (kept : σ) :
    let p := build settings request schema review
    (p.needsClarification = true → p.handovers settings tokens execute spare kept = [] ∧
        p.run settings tokens execute spare kept =
          some (.error (.needsClarification (p.question.getD "")))) ∧
      (p.needsClarification = false →
        ∃ r, p.run settings tokens execute spare kept = some (.ok r) ∧
          p.run settings tokens execute.recording spare (kept, []) = some (.ok (r.withCalls
            ((p.handovers settings tokens execute spare kept).map (·.2))))) ∧
      ∀ h ∈ p.handovers settings tokens execute spare kept,
        h.2.action ∉ settings.disallowedActions ∨
          h.2.id ∉ p.ids ∧
            (h.2.action = Action.createSheet ∨ h.2.action = Action.clearRange) := by
  intro p
  have htidy : p.Tidy tokens :=
    Draft.tidy_of_ordered (ordered_build settings request schema review) tokens
  refine ⟨fun hasks => ?_, fun hready => ?_, fun h hh => ?_⟩
  · have hrefusal : p.refusal? = some (.needsClarification (p.question.getD "")) := by
      rw [refusal?, if_pos hasks]
    exact ⟨by rw [handovers, starts, hrefusal]; rfl, by rw [run, hrefusal]⟩
  · have hrefusal : p.refusal? = none := by
      rw [refusal?, hready, if_neg Bool.false_ne_true, isOver_build, if_neg Bool.false_ne_true]
    obtain ⟨-, r, -, -, hrun⟩ := run_ends settings execute spare kept hrefusal htidy
    exact ⟨r, hrun, run_recording hrefusal hrun⟩
  · obtain ⟨hreach, hready⟩ := reaches_of_handover htidy hh
    have hpermits := hreach.permits (tidy_opened htidy)
      (allowed_build settings request schema review) h.2 (nextReady?_eq_some hready).1
    rcases hpermits with hallowed | ⟨hminted, haction⟩
    · exact .inl hallowed
    · exact .inr ⟨fun hmem => htidy.fresh _ hmem hminted, haction⟩

/-- The sheet cannot be created, and so the values in it are cleared, though that is not allowed. -/
theorem build_run_clears :
    let settings : Settings := { disallowedActions := [Action.clearRange] }
    let schema : Schema := { tables := [⟨"T", [⟨"a", none, none, none⟩], []⟩] }
    let p := build settings ⟨"t", ""⟩ (some schema) none
    ∃ h ∈ p.handovers settings (fun _ => "TOKEN") (fun _ (_ : Unit) => (.failure "boom", ())) 0 (),
      h.2.id = "r2_TOKEN_1" ∧ h.2.action = Action.clearRange ∧
        h.2.action ∈ settings.disallowedActions := by
  decide +kernel

end Plan

end WorkbookPlan
