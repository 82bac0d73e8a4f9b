import Mathlib.Data.List.Nodup
import WorkbookPlan.Plan.Basic

/-! What marking and extending do to the steps of a plan in which no name occurs twice: a mark sets
the state of the one step of that name, and new steps go behind the old ones. -/
namespace WorkbookPlan

namespace Step

def withStatus (status : Status) (s : Step) : Step :=
  { s with status := status }

def markWhere (status : Status) (which : Step → Bool) (steps : List Step) : List Step :=
  steps.map fun s => if which s then s.withStatus status else s

variable {status : Status} {which : Step → Bool} {steps : List Step}

theorem markWhere_cons (s : Step) : markWhere status which (s :: steps) =
    (if which s then s.withStatus status else s) :: markWhere status which steps := rfl

@[simp] theorem map_id_markWhere : (markWhere status which steps).map (·.id) = steps.map (·.id) := by
  simp only [markWhere, List.map_map]
  refine List.map_congr_left fun s _ => ?_
  dsimp only [Function.comp_apply]
  split <;> rfl

theorem map_id_filter_markWhere {p : Step → Bool} :
    ((markWhere status which steps).filter p).map (·.id) =
      (steps.filter fun s => p (if which s then s.withStatus status else s)).map (·.id) := by
  rw [markWhere, List.filter_map, List.map_map]
  refine List.map_congr_left fun s _ => ?_
  dsimp only [Function.comp_apply]
  split <;> rfl

theorem mem_markWhere {t : Step} : t ∈ markWhere status which steps ↔
    ∃ s ∈ steps, (which s = true ∧ t = s.withStatus status) ∨ (which s = false ∧ t = s) := by
  simp only [markWhere, List.mem_map]
  refine exists_congr fun s => and_congr_right fun _ => ?_
  cases which s <;> simp [eq_comm]

theorem markWhere_eq_self (h : ∀ s ∈ steps, which s = false) :
    markWhere status which steps = steps := by
  refine (List.map_congr_left fun s hs => ?_).trans (List.map_id steps)
  simp [h s hs]

/-- Where names differ, a name tells whether its step is among those picked. -/
theorem contains_map_id_filter (h : (steps.map (·.id)).Nodup) {s : Step} (hs : s ∈ steps) :
    ((steps.filter which).map (·.id)).contains s.id = which s := by
  rw [Bool.eq_iff_iff, List.contains_iff_mem, List.mem_map]
  constructor
  · rintro ⟨t, ht, hid⟩
    obtain ⟨ht, hw⟩ := List.mem_filter.1 ht
    rwa [← List.inj_on_of_nodup_map h ht hs hid]
  · exact fun hw => ⟨s, List.mem_filter.2 ⟨hs, hw⟩, rfl⟩

/-- Two marks of one state are one. -/
theorem markWhere_markWhere {which' : Step → Bool} :
    markWhere status which' (markWhere status which steps) =
      markWhere status (fun s => which s || which' s) steps := by
  rw [markWhere, markWhere, markWhere, List.map_map]
  refine List.map_congr_left fun s _ => ?_
  cases hw : which s <;> cases hw' : which' s <;> simp [hw, hw', withStatus]

/-- Marking some of the pending steps takes these out of the pending ones. -/
theorem length_pending_markWhere (hstatus : status ≠ .pending)
    (hwhich : ∀ s ∈ steps, which s = true → s.isPending = true) :
    ((markWhere status which steps).filter (·.isPending)).length + (steps.filter which).length =
      (steps.filter (·.isPending)).length := by
  induction steps with
  | nil => rfl
  | cons s steps ih =>
    have hrest := ih fun t ht => hwhich t (List.mem_cons_of_mem _ ht)
    have hne : (s.withStatus status).isPending = false := by
      simp [withStatus, isPending, hstatus]
    rw [markWhere_cons]
    cases hw : which s with
    | true =>
      have hp := hwhich s List.mem_cons_self hw
      simp only [if_true, List.filter_cons, hne, hw, hp, List.length_cons, Bool.false_eq_true,
        if_false]
      omega
    | false =>
      cases hp : s.isPending <;>
        simp only [if_true, List.filter_cons, hw, hp, List.length_cons, Bool.false_eq_true,
          if_false] <;> omega

end Step

namespace Plan

open Step

def ids (p : Plan) : List StepId :=
  p.steps.map (·.id)

theorem mem_ids {p : Plan} {id : StepId} : id ∈ p.ids ↔ ∃ s ∈ p.steps, s.id = id :=
  List.mem_map

theorem id_mem_ids {p : Plan} {s : Step} (h : s ∈ p.steps) : s.id ∈ p.ids :=
  List.mem_map_of_mem h

theorem step?_eq_none_iff {p : Plan} {id : StepId} : p.step? id = none ↔ id ∉ p.ids := by
  simp [step?, ids]

theorem step?_eq_some {p : Plan} {id : StepId} {s : Step} (h : p.step? id = some s) :
    s ∈ p.steps ∧ s.id = id :=
  ⟨List.mem_of_find?_eq_some h, by simpa using List.find?_some h⟩

theorem eq_of_id_eq {p : Plan} (hp : p.ids.Nodup) {s t : Step} (hs : s ∈ p.steps)
    (ht : t ∈ p.steps) (h : s.id = t.id) : s = t :=
  List.inj_on_of_nodup_map hp hs ht h

theorem step?_of_mem {p : Plan} (hp : p.ids.Nodup) {s : Step} (hs : s ∈ p.steps) :
    p.step? s.id = some s := by
  cases h : p.step? s.id with
  | none => exact absurd (id_mem_ids hs) (step?_eq_none_iff.1 h)
  | some t =>
    obtain ⟨ht, hid⟩ := step?_eq_some h
    rw [eq_of_id_eq hp ht hs hid]

theorem index?_eq_none_iff {p : Plan} {id : StepId} : p.index? id = none ↔ id ∉ p.ids := by
  simp [index?, ids]

theorem contains_iff {p : Plan} {id : StepId} : p.contains id = true ↔ id ∈ p.ids := by
  rw [contains, ← Option.ne_none_iff_isSome, ne_eq, index?_eq_none_iff, not_not]

theorem setStatus_eq_markWhere {id : StepId} {status : Status} {steps : List Step}
    (h : (steps.map (·.id)).Nodup) :
    setStatus id status steps = markWhere status (·.id == id) steps := by
  induction steps with
  | nil => rfl
  | cons s steps ih =>
    obtain ⟨hs, hrest⟩ := List.nodup_cons.1 h
    by_cases hid : s.id = id
    · have hothers : ∀ t ∈ steps, (t.id == id) = false := fun t ht => by
        simpa [← hid] using fun he => hs (List.mem_map.2 ⟨t, ht, he⟩)
      rw [setStatus, if_pos hid, markWhere_cons, markWhere_eq_self hothers]
      simp [hid, withStatus]
    · rw [setStatus, if_neg hid, markWhere_cons, ih hrest]
      simp [hid]

theorem setStatus_setStatus (id : StepId) (a b : Status) (steps : List Step) :
    setStatus id b (setStatus id a steps) = setStatus id b steps := by
  induction steps with
  | nil => rfl
  | cons s steps ih =>
    by_cases hid : s.id = id <;> simp [setStatus, hid, ih]

@[simp] theorem map_id_setStatus (id : StepId) (status : Status) (steps : List Step) :
    (setStatus id status steps).map (·.id) = steps.map (·.id) := by
  induction steps with
  | nil => rfl
  | cons s steps ih =>
    by_cases hid : s.id = id <;> simp [setStatus, hid, ih]

/-- Start a step and finish it. -/
def complete (p : Plan) (id : StepId) : Plan :=
  (p.markRunning id).markCompleted id

/-- Start a step and give it up. -/
def fail (p : Plan) (id : StepId) : Plan :=
  (p.markRunning id).markFailed id

theorem ids_markRunning (p : Plan) (id : StepId) : (p.markRunning id).ids = p.ids := by
  unfold markRunning
  split
  · rfl
  · exact map_id_setStatus ..

variable {p : Plan} {id : StepId}

theorem markRunning_eq (h : id ∈ p.ids) : p.markRunning id =
    { p with
      steps := setStatus id .running p.steps
      current := (p.index? id).getD 0
      phase := .executing } := by
  unfold markRunning
  cases hi : p.index? id with
  | none => exact absurd h (index?_eq_none_iff.1 hi)
  | some i => rfl

section Mark

variable {status : Status} {note : Plan → Plan}

theorem mark_of_mem (h : id ∈ p.ids) :
    p.mark id status note = note { p with steps := setStatus id status p.steps } :=
  if_pos (contains_iff.2 h)

/-- What a note leaves as it is, a mark does too. -/
theorem mark_eq_of_note {α : Sort _} (f : Plan → α)
    (h : f (note { p with steps := setStatus id status p.steps }) = f p) :
    f (p.mark id status note) = f p := by
  unfold mark
  split
  · exact h
  · rfl

/-- The state that a step is given after its start is all that is left of the two marks. -/
theorem mark_markRunning (hp : p.ids.Nodup) (h : id ∈ p.ids) (status : Status)
    (note : Plan → Plan) : (p.markRunning id).mark id status note =
    note { p with
      steps := markWhere status (·.id == id) p.steps
      current := (p.index? id).getD 0
      phase := .executing } := by
  have hrunning : id ∈ (p.markRunning id).ids := by rwa [ids_markRunning]
  rw [mark_of_mem hrunning, markRunning_eq h]
  simp only [setStatus_setStatus]
  rw [setStatus_eq_markWhere hp]

end Mark

theorem mem_insertOnce {ids : List StepId} {a b : StepId} :
    a ∈ insertOnce ids b ↔ a ∈ ids ∨ a = b := by
  unfold insertOnce
  split
  · next h =>
    have hb : b ∈ ids := by simpa using h
    constructor
    · exact .inl
    · rintro (ha | rfl)
      · exact ha
      · exact hb
  · simp

theorem getElem?_renumber (order : Nat) (steps : List Step) (i : Nat) :
    ∃ place, (renumber order steps)[i]? =
      steps[i]?.map fun s => { s with order := place, status := .pending } := by
  induction steps generalizing order i with
  | nil => exact ⟨order, rfl⟩
  | cons s steps ih =>
    cases i with
    | zero => exact ⟨order, rfl⟩
    | succ i => exact ih (placeBehind order) i

@[simp] theorem map_id_renumber (order : Nat) (steps : List Step) :
    (renumber order steps).map (·.id) = steps.map (·.id) := by
  induction steps generalizing order with
  | nil => rfl
  | cons s steps ih => simp [renumber, ih]

@[simp] theorem length_renumber (order : Nat) (steps : List Step) :
    (renumber order steps).length = steps.length := by
  rw [← List.length_map, map_id_renumber, List.length_map]

theorem exists_of_mem_renumber {order : Nat} {steps : List Step} {s : Step}
    (h : s ∈ renumber order steps) :
    ∃ (i : Nat) (t : Step), steps[i]? = some t ∧ s.status = .pending ∧
      s.dependsOn = t.dependsOn := by
  obtain ⟨i, hi⟩ := List.mem_iff_getElem?.1 h
  obtain ⟨place, hplace⟩ := getElem?_renumber order steps i
  obtain ⟨t, ht, rfl⟩ := Option.map_eq_some_iff.1 (hplace.symm.trans hi)
  exact ⟨i, t, ht, rfl, rfl⟩

theorem exists_mem_renumber (order : Nat) {steps : List Step} {i : Nat} {s : Step}
    (h : steps[i]? = some s) :
    ∃ t ∈ renumber order steps, t.id = s.id ∧ t.dependsOn = s.dependsOn := by
  obtain ⟨place, hplace⟩ := getElem?_renumber order steps i
  rw [h] at hplace
  exact ⟨_, List.mem_of_getElem? hplace, rfl, rfl⟩

end Plan

end WorkbookPlan
