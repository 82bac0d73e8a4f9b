import WorkbookPlan.Proofs.Step.Founded

/-! Schedules. Again and again the first step is done that is not done yet and waits for nothing
else. What is left in the end is what taking the graph apart layer by layer leaves. -/
namespace WorkbookPlan

namespace Step

/-- The step is not done yet, and all that it waits for is. -/
def isOpen (done : List StepId) (s : Step) : Bool :=
  !done.contains s.id && s.dependsOn.all (done.contains ·)

def firstOpen? (steps : List Step) (done : List StepId) : Option Step :=
  steps.find? (isOpen done)

/-- The steps that are done from a moment on, until none is open. -/
inductive Scheduled (steps : List Step) : List StepId → List Step → Prop where
  | stop {done} : firstOpen? steps done = none → Scheduled steps done []
  | next {done s rest} : firstOpen? steps done = some s → Scheduled steps (done ++ [s.id]) rest →
      Scheduled steps done (s :: rest)

variable {steps more : List Step} {done : List StepId}

theorem isOpen_iff {s : Step} :
    isOpen done s = true ↔ s.id ∉ done ∧ ∀ d ∈ s.dependsOn, d ∈ done := by
  simp [isOpen]

theorem firstOpen?_eq_some {s : Step} (h : firstOpen? steps done = some s) :
    s ∈ steps ∧ s.id ∉ done ∧ ∀ d ∈ s.dependsOn, d ∈ done :=
  ⟨List.mem_of_find?_eq_some h, isOpen_iff.1 (List.find?_some h)⟩

namespace Scheduled

theorem subset (h : Scheduled steps done more) : more ⊆ steps := by
  induction h with
  | stop => exact List.nil_subset _
  | next hs _ ih => exact List.cons_subset.2 ⟨(firstOpen?_eq_some hs).1, ih⟩

theorem nodup (h : Scheduled steps done more) (hdone : done.Nodup) :
    (done ++ more.map (·.id)).Nodup := by
  induction h with
  | stop => rwa [List.map_nil, List.append_nil]
  | next hs _ ih =>
    rw [List.map_cons, List.append_cons]
    have hlonger := hdone.concat (firstOpen?_eq_some hs).2.1
    rw [List.concat_eq_append] at hlonger
    exact ih hlonger

theorem founded (h : Scheduled steps done more) (hnodup : (steps.map (·.id)).Nodup)
    (hdone : ∀ id ∈ done, Founded steps id) : ∀ s ∈ more, Founded steps s.id := by
  induction h with
  | stop => exact fun _ h => nomatch h
  | @next done s rest hs _ ih =>
    obtain ⟨hmem, -, hdeps⟩ := firstOpen?_eq_some hs
    have hfounded : Founded steps s.id :=
      founded_of_dependsOn hnodup hmem fun d hd => hdone d (hdeps d hd)
    refine List.forall_mem_cons.2 ⟨hfounded, ih fun id hid => ?_⟩
    rcases List.mem_append.1 hid with hold | hnew
    · exact hdone id hold
    · exact List.mem_singleton.1 hnew ▸ hfounded

/-- What is not done in the end waits for something that is not. -/
theorem exists_notMem (h : Scheduled steps done more) {s : Step} (hs : s ∈ steps)
    (hleft : s.id ∉ done ++ more.map (·.id)) :
    ∃ d ∈ s.dependsOn, d ∉ done ++ more.map (·.id) := by
  induction h with
  | stop hnone =>
    rw [List.map_nil, List.append_nil] at hleft ⊢
    by_contra hall
    push Not at hall
    exact List.find?_eq_none.1 hnone s hs (isOpen_iff.2 ⟨hleft, hall⟩)
  | next _ _ ih =>
    rw [List.map_cons, List.append_cons] at hleft ⊢
    exact ih hleft

theorem mem_of_founded (h : Scheduled steps done more)
    (hclosed : ∀ s ∈ steps, ∀ d ∈ s.dependsOn, d ∈ steps.map (·.id)) {id : StepId}
    (hid : Founded steps id) (hmem : id ∈ steps.map (·.id)) : id ∈ done ++ more.map (·.id) := by
  induction hid with
  | intro id _ ih =>
    obtain ⟨s, hs, rfl⟩ := List.mem_map.1 hmem
    by_contra hleft
    obtain ⟨d, hd, hnot⟩ := h.exists_notMem hs hleft
    exact hnot (ih d ⟨s, hs, rfl, hd⟩ (hclosed s hs d hd))

/-- The founded steps are done, each once. -/
theorem mem_iff_founded (h : Scheduled steps [] more) (hnodup : (steps.map (·.id)).Nodup)
    (hclosed : ∀ s ∈ steps, ∀ d ∈ s.dependsOn, d ∈ steps.map (·.id)) {s : Step} (hs : s ∈ steps) :
    s.id ∈ more.map (·.id) ↔ Founded steps s.id := by
  constructor
  · intro hmem
    obtain ⟨t, ht, hid⟩ := List.mem_map.1 hmem
    exact hid ▸ h.founded hnodup (fun _ h => nomatch h) t ht
  · intro hfounded
    exact h.mem_of_founded hclosed hfounded (List.mem_map_of_mem hs)

theorem perm (h : Scheduled steps [] more) (hnodup : (steps.map (·.id)).Nodup) :
    more.Perm (steps.filter fun s => (more.map (·.id)).contains s.id) := by
  have honce : more.Nodup := (h.nodup .nil).of_map _
  refine (List.perm_ext_iff_of_nodup honce ((hnodup.of_map _).filter _)).2 fun s => ?_
  rw [List.mem_filter, List.contains_iff_mem]
  constructor
  · exact fun hs => ⟨h.subset hs, List.mem_map_of_mem hs⟩
  · rintro ⟨hs, hid⟩
    obtain ⟨t, ht, hsame⟩ := List.mem_map.1 hid
    exact List.inj_on_of_nodup_map hnodup (h.subset ht) hs hsame ▸ ht

/-- If each step waits only for steps before it, they are done in their order. -/
theorem eq_of_earlier (before : List Step) {rest : List Step}
    (h : Scheduled steps (before.map (·.id)) more)
    (hsteps : steps = before ++ rest) (hnodup : (steps.map (·.id)).Nodup)
    (hearlier : ∀ (i : Nat) (s : Step), steps[i]? = some s → ∀ d ∈ s.dependsOn,
      ∃ (j : Nat) (t : Step), j < i ∧ steps[j]? = some t ∧ t.id = d) : more = rest := by
  have hdone : before.find? (isOpen (before.map (·.id))) = none :=
    List.find?_eq_none.2 fun t ht hopen => (isOpen_iff.1 hopen).1 (List.mem_map_of_mem ht)
  induction rest generalizing before more with
  | nil =>
    cases h with
    | stop => rfl
    | next hs =>
      rw [firstOpen?, hsteps, List.append_nil, hdone] at hs
      cases hs
  | cons s rest ih =>
    have hopen : isOpen (before.map (·.id)) s = true := by
      refine isOpen_iff.2 ⟨fun hmem => ?_, fun d hd => ?_⟩
      · rw [hsteps, List.map_append, List.nodup_append] at hnodup
        exact hnodup.2.2 _ hmem _ List.mem_cons_self rfl
      · obtain ⟨j, t, hj, ht, rfl⟩ := hearlier before.length s (by simp [hsteps]) d hd
        rw [hsteps, List.getElem?_append_left hj] at ht
        exact List.mem_map_of_mem (List.mem_of_getElem? ht)
    have hfirst : firstOpen? steps (before.map (·.id)) = some s := by
      rw [firstOpen?, hsteps, List.find?_append, hdone, List.find?_cons, hopen]
      rfl
    cases h with
    | stop hnone => simp [hfirst] at hnone
    | @next _ t more ht hmore =>
      obtain rfl : s = t := Option.some.inj (hfirst.symm.trans ht)
      have hlonger : (before ++ [s]).map (·.id) = before.map (·.id) ++ [s.id] := List.map_append
      rw [← hlonger] at hmore
      rw [ih _ hmore (by rw [hsteps, List.append_assoc]; rfl) ?_]
      exact List.find?_eq_none.2 fun t ht hopen =>
        (isOpen_iff.1 hopen).1 (List.mem_map_of_mem ht)

end Scheduled

end Step

namespace StructureReport

open Step

variable {steps : List Step}

theorem filterMap_range_filter {which : Step → Bool} {places : Nat → Bool}
    (h : ∀ i s, steps[i]? = some s → places i = which s) :
    ((List.range steps.length).filter places).filterMap (fun i => steps[i]?) =
      steps.filter which := by
  induction steps generalizing places with
  | nil => rfl
  | cons s rest ih =>
    have hlater : ∀ i t, rest[i]? = some t → (places ∘ Nat.succ) i = which t :=
      fun i t ht => h (i + 1) t ht
    have hrest := ih hlater
    have hfirst : places 0 = which s := h 0 s rfl
    rw [List.length_cons, List.range_succ_eq_map, List.filter_cons, hfirst, List.filter_map,
      List.filter_cons]
    cases which s with
    | true => simpa [List.filterMap_map, Function.comp_def] using hrest
    | false => simpa [List.filterMap_map, Function.comp_def] using hrest

/-- The steps that depend on a cycle are those without a foundation, in their order. -/
theorem filterMap_stuck (hnodup : (steps.map (·.id)).Nodup) {which : Step → Bool}
    (hwhich : ∀ s ∈ steps, which s = true ↔ ¬ Founded steps s.id) :
    (Graph.ofSteps steps).stuck.filterMap (fun i => steps[i]?) = steps.filter which := by
  obtain ⟨places, hplaces⟩ :=
    Graph.peel_stuck_eq_filter (.ofSteps steps) (Graph.ofSteps steps).nodes
  have hstuck : (Graph.ofSteps steps).stuck = (List.range steps.length).filter places := by
    rw [← Graph.size_ofSteps steps]
    exact hplaces
  rw [hstuck]
  refine filterMap_range_filter fun i s hs => ?_
  have hlt : i < steps.length := (List.getElem?_eq_some_iff.1 hs).1
  have hmem : i ∈ (Graph.ofSteps steps).stuck ↔ places i = true := by
    rw [hstuck, List.mem_filter, List.mem_range, and_iff_right hlt]
  rw [Bool.eq_iff_iff, ← hmem, hwhich s (List.mem_of_getElem? hs),
    Graph.founded_iff_notMem_stuck hnodup hs, not_not]

theorem getD_stuckIds?_eq (steps : List Step) : (stuckIds? steps).getD [] =
    ((Graph.ofSteps steps).stuck.filterMap fun i => steps[i]?).map (·.id) := by
  rw [List.map_filterMap]
  unfold stuckIds?
  split
  · next h => rw [h, Option.getD_none]
  · rw [Option.getD_some]

theorem getD_stuckIds? (hnodup : (steps.map (·.id)).Nodup) {which : Step → Bool}
    (hwhich : ∀ s ∈ steps, which s = true ↔ ¬ Founded steps s.id) :
    (stuckIds? steps).getD [] = (steps.filter which).map (·.id) := by
  rw [getD_stuckIds?_eq, filterMap_stuck hnodup hwhich]

/-- A schedule leaves just the steps that depend on a cycle. -/
theorem getD_stuckIds?_of_scheduled {more : List Step} (h : Scheduled steps [] more)
    (hnodup : (steps.map (·.id)).Nodup)
    (hclosed : ∀ s ∈ steps, ∀ d ∈ s.dependsOn, d ∈ steps.map (·.id)) :
    (stuckIds? steps).getD [] =
      (steps.filter fun s => !(more.map (·.id)).contains s.id).map (·.id) := by
  refine getD_stuckIds? hnodup fun s hs => ?_
  rw [Bool.not_eq_true', ← Bool.not_eq_true, List.contains_iff_mem,
    h.mem_iff_founded hnodup hclosed hs]

end StructureReport

end WorkbookPlan
