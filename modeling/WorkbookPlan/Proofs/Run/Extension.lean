import Mathlib.Data.List.Forall2
import WorkbookPlan.Proofs.Run.Calculation
import WorkbookPlan.Proofs.Run.Edits

/-! A run extends its plan and never rewrites it: every edit leaves the steps in their places, but
for the states of those still open, and puts new ones behind them in order. -/
namespace WorkbookPlan

open Step Relation

namespace Step

/-- The second step is the first at a later time: only its state may have changed, and not once it
was terminal. -/
structure Persists (s t : Step) : Prop where
  eq : t = s.withStatus t.status
  status : s.status.isTerminal = true → t.status = s.status

theorem Persists.refl (s : Step) : s.Persists s :=
  ⟨rfl, fun _ => rfl⟩

theorem Persists.trans {s t u : Step} (hst : s.Persists t) (htu : t.Persists u) : s.Persists u where
  eq := by rw [htu.eq, hst.eq]; rfl
  status hs := by
    have ht := hst.status hs
    rw [htu.status (ht ▸ hs), ht]

theorem Persists.order {s t : Step} (h : s.Persists t) : t.order = s.order := by
  rw [h.eq]
  rfl

theorem forall₂_persists_refl (steps : List Step) : List.Forall₂ Persists steps steps :=
  List.forall₂_same.2 fun s _ => .refl s

theorem forall₂_persists_trans {steps mid last : List Step} (h : List.Forall₂ Persists steps mid)
    (h' : List.Forall₂ Persists mid last) : List.Forall₂ Persists steps last := by
  induction h generalizing last with
  | nil => exact h'
  | cons hst _ ih =>
    obtain ⟨u, rest, hu, hrest, rfl⟩ := List.forall₂_cons_left_iff.1 h'
    exact .cons (hst.trans hu) (ih hrest)

theorem forall₂_persists_append {steps new later : List Step}
    (h : List.Forall₂ Persists (steps ++ new) later) : ∃ old rest, later = old ++ rest ∧
      List.Forall₂ Persists steps old ∧ List.Forall₂ Persists new rest := by
  have hold := List.forall₂_take steps.length h
  have hrest := List.forall₂_drop steps.length h
  rw [List.take_left] at hold
  rw [List.drop_left] at hrest
  exact ⟨_, _, (List.take_append_drop steps.length later).symm, hold, hrest⟩

theorem map_order_of_persists {steps later : List Step} (h : List.Forall₂ Persists steps later) :
    later.map (·.order) = steps.map (·.order) := by
  induction h with
  | nil => rfl
  | cons hst _ ih => rw [List.map_cons, List.map_cons, hst.order, ih]

theorem forall₂_markWhere {steps : List Step} {status : Status} {which : Step → Bool}
    (h : ∀ s ∈ steps, which s = true → s.status.isTerminal = false) :
    List.Forall₂ Persists steps (markWhere status which steps) := by
  rw [markWhere, List.forall₂_map_right_iff, List.forall₂_same]
  intro s hs
  by_cases hw : which s = true
  · rw [if_pos hw]
    exact ⟨rfl, fun hterminal => by simp [h s hs hw] at hterminal⟩
  · rw [if_neg hw]
    exact .refl s

end Step

namespace Plan

/-- What a plan says of its task, apart from the work itself. -/
def preamble (p : Plan) : String × String × List Expectation × Verdict × List Risk × Owners :=
  (p.task, p.taskKind, p.expectations, p.verdict, p.risks, p.owners)

/-- The steps of the first plan are still there, in front and in their order, and those behind them
are numbered on, one by one, as long as the numbers have 32 bits. -/
structure Extends (p q : Plan) : Prop where
  steps : ∃ old new, q.steps = old ++ new ∧ List.Forall₂ Persists p.steps old ∧
    (p.lastOrder + new.length + 1 < UInt32.size →
      new.map (·.order) = List.range' (p.lastOrder + 1) new.length)
  preamble : q.preamble = p.preamble

variable {settings : Settings} {tokens : Nat → String} {p q r : Plan}

theorem foldl_max_range' (m n : Nat) : (List.range' (m + 1) n).foldl max m = m + n := by
  induction n generalizing m with
  | zero => rfl
  | succ n ih =>
    rw [List.range'_succ, List.foldl_cons, Nat.max_eq_right (Nat.le_succ m), ih]
    omega

theorem placeBehind_of_lt {order : Nat} (h : order + 1 < UInt32.size) :
    placeBehind order = order + 1 :=
  Nat.mod_eq_of_lt h

theorem map_order_renumber {order : Nat} {steps : List Step}
    (h : order + steps.length < UInt32.size) :
    (renumber order steps).map (·.order) = List.range' order steps.length := by
  induction steps generalizing order with
  | nil => rfl
  | cons s steps ih =>
    rw [List.length_cons] at h
    have hplace : placeBehind order = order + 1 := placeBehind_of_lt (by omega)
    have hrest : order + 1 + steps.length < UInt32.size := by omega
    rw [renumber, List.map_cons, hplace, ih hrest, List.length_cons, List.range'_succ]

namespace Extends

theorem of_steps_eq (hsteps : q.steps = p.steps) (hpreamble : q.preamble = p.preamble) :
    p.Extends q where
  steps :=
    ⟨p.steps, [], by rw [hsteps, List.append_nil], forall₂_persists_refl p.steps, fun _ => rfl⟩
  preamble := hpreamble

theorem refl (p : Plan) : p.Extends p :=
  of_steps_eq rfl rfl

theorem trans (hpq : p.Extends q) (hqr : q.Extends r) : p.Extends r where
  steps := by
    obtain ⟨old, new, hq, hold, hnew⟩ := hpq.steps
    obtain ⟨later, new', hr, hlater, hnew'⟩ := hqr.steps
    obtain ⟨old', rest, rfl, hold', hrest⟩ := forall₂_persists_append (hq ▸ hlater)
    have hlength : rest.length = new.length := hrest.length_eq.symm
    refine ⟨old', rest ++ new', by rw [hr, List.append_assoc],
      forall₂_persists_trans hold hold', fun hfits => ?_⟩
    rw [List.length_append, hlength] at hfits
    have hfirst := hnew (by omega)
    have hlast : q.lastOrder = p.lastOrder + new.length := by
      rw [lastOrder, hq, List.map_append, List.foldl_append, map_order_of_persists hold, hfirst]
      exact foldl_max_range' _ _
    have hsecond := hnew' (by omega)
    rw [List.map_append, map_order_of_persists hrest, hfirst, hsecond, hlast, List.length_append,
      hlength, Nat.add_right_comm, List.range'_append_1]
  preamble := hqr.preamble.trans hpq.preamble

end Extends

section Edit

theorem preamble_markRunning (p : Plan) (id : StepId) :
    (p.markRunning id).preamble = p.preamble := by
  unfold markRunning
  split <;> rfl

theorem Edit.preamble_eq (h : Edit settings tokens p q) : q.preamble = p.preamble := by
  cases h with
  | start => exact preamble_markRunning p _
  | skip => rfl
  | complete => exact mark_eq_of_note Plan.preamble rfl
  | fail => exact mark_eq_of_note Plan.preamble rfl
  | repair => rfl
  | settle => rfl

theorem Edit.extends (h : Edit settings tokens p q) (hp : p.ids.Nodup) : p.Extends q where
  steps := by
    cases h.reworks hp with
    | @mark s status hs hopen hsteps _ =>
      refine ⟨q.steps, [], by rw [List.append_nil], ?_, fun _ => rfl⟩
      rw [hsteps]
      refine forall₂_markWhere fun t ht hid => ?_
      rwa [eq_of_id_eq hp ht hs (by simpa using hid)]
    | append _ _ hsteps _ =>
      refine ⟨p.steps, _, hsteps, forall₂_persists_refl _, fun hfits => ?_⟩
      rw [length_renumber] at hfits ⊢
      have hplace : placeBehind p.lastOrder = p.lastOrder + 1 := placeBehind_of_lt (by omega)
      rw [hplace, map_order_renumber (by omega)]
    | leave hsteps _ => exact (Extends.of_steps_eq (q := q) hsteps h.preamble_eq).steps
  preamble := h.preamble_eq

theorem Edits.extends (h : Edits settings tokens p q) (hp : p.Tidy tokens) : p.Extends q := by
  induction h with
  | refl => exact .refl p
  | tail hedits hedit ih => exact ih.trans (hedit.extends (Edits.tidy hedits hp).distinct)

end Edit

section Drafted

variable {config : Settings} {schema : Schema}
  (h : p.steps = (Draft.ofSchema config schema).steps)

include h

end Drafted

section Run

variable {σ : Type _}

theorem run_extends_of_tidy (settings : Settings) (execute : Executor σ) (spare : Nat) (kept : σ)
    (hp : p.refusal? = none) (ht : p.Tidy tokens) :
    ∃ r, p.run settings tokens execute spare kept = some (.ok r) ∧
      (p.moments settings tokens execute spare kept).getLast? = some r ∧
      (∀ q ∈ p.moments settings tokens execute spare kept, p.Extends q.plan) ∧
      (p.moments settings tokens execute spare kept).Pairwise
        fun q q' => q.plan.Extends q'.plan := by
  obtain ⟨r, hrun, hlast, hleads⟩ := run_leads settings execute spare kept hp ht
  refine ⟨r, hrun, hlast, fun q hq => (hleads.between q hq).1.extends ht, ?_⟩
  exact hleads.pairwise.imp_of_mem fun hq _ hedits =>
    Edits.extends hedits (Edits.tidy (hleads.between _ hq).1 ht)

theorem extends_of_run {settings : Settings} {execute : Executor σ} {spare : Nat} {kept : σ}
    {r : Run σ} (hp : p.refusal? = none) (ht : p.Tidy tokens)
    (h : p.run settings tokens execute spare kept = some (.ok r)) : p.Extends r.plan := by
  obtain ⟨r', hrun, hlast, hextends, -⟩ := run_extends_of_tidy settings execute spare kept hp ht
  obtain rfl : r' = r := Except.ok.inj (Option.some.inj (hrun.symm.trans h))
  exact hextends r' (List.mem_of_getLast? hlast)

end Run

end Plan

end WorkbookPlan
