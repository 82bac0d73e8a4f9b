import Mathlib.Data.List.Perm.Basic
import WorkbookPlan.Proofs.Draft.Ownership
import WorkbookPlan.Proofs.Owners.Log
import WorkbookPlan.Proofs.Step.Peel

/-! What names lead to, each thing once and in the order of the first names that lead to it. Steps are
told in this way from tokens and from tables, through the owners of the fields. -/
namespace WorkbookPlan

section FirstSeen

variable {κ α : Type _} {leads : κ → α → Prop} {names more : List κ} {x y : α} {xs ys : List α}

/-- As the names go on, one leads to the first thing before any leads to the second. -/
def SeenBefore (leads : κ → α → Prop) (names : List κ) (x y : α) : Prop :=
  ∃ front, front <+: names ∧ (∃ name ∈ front, leads name x) ∧ ∀ name ∈ front, ¬ leads name y

/-- All that the names lead to, each thing once and in the order of the first names that lead to it. -/
structure FirstSeen (leads : κ → α → Prop) (names : List κ) (xs : List α) : Prop where
  nodup : xs.Nodup
  mem_iff : ∀ x, x ∈ xs ↔ ∃ name ∈ names, leads name x
  inOrder : xs.Pairwise (SeenBefore leads names)

theorem SeenBefore.append (h : SeenBefore leads names x y) (more : List κ) :
    SeenBefore leads (names ++ more) x y := by
  obtain ⟨front, hfront, hx, hy⟩ := h
  exact ⟨front, List.prefix_append_of_prefix hfront, hx, hy⟩

theorem SeenBefore.asymm (h : SeenBefore leads names x y) : ¬ SeenBefore leads names y x := by
  rintro ⟨front', hfront', ⟨name', hmem', hlead'⟩, hnone'⟩
  obtain ⟨front, hfront, ⟨name, hmem, hlead⟩, hnone⟩ := h
  rcases List.prefix_or_prefix_of_prefix hfront hfront' with hle | hle
  · exact hnone' name (hle.subset hmem) hlead
  · exact hnone name' (hle.subset hmem') hlead'

namespace FirstSeen

theorem nil : FirstSeen leads [] [] :=
  ⟨List.nodup_nil, by simp, List.Pairwise.nil⟩

/-- Names that lead to nothing new add nothing. -/
theorem append_old (h : FirstSeen leads names xs) (hold : ∀ name ∈ more, ∀ x, leads name x → x ∈ xs) :
    FirstSeen leads (names ++ more) xs where
  nodup := h.nodup
  mem_iff x := by
    constructor
    · intro hx
      obtain ⟨name, hname, hlead⟩ := (h.mem_iff x).1 hx
      exact ⟨name, List.mem_append_left _ hname, hlead⟩
    · rintro ⟨name, hname, hlead⟩
      rcases List.mem_append.1 hname with hname | hname
      · exact (h.mem_iff x).2 ⟨name, hname, hlead⟩
      · exact hold name hname x hlead
  inOrder := h.inOrder.imp fun hxy => hxy.append more

/-- A name that leads to something new adds it behind all else. -/
theorem concat_new (h : FirstSeen leads names xs) (hnew : x ∉ xs) {name : κ}
    (hname : ∀ y, leads name y ↔ y = x) : FirstSeen leads (names ++ [name]) (xs ++ [x]) where
  nodup := List.nodup_append.2 ⟨h.nodup, List.nodup_singleton x, fun y hy z hz => by
    rw [List.mem_singleton.1 hz]
    exact fun heq => hnew (heq ▸ hy)⟩
  mem_iff y := by
    simp only [List.mem_append, List.mem_singleton, h.mem_iff, ← hname, or_and_right, exists_or,
      exists_eq_left]
  inOrder := by
    have hbefore : ∀ y ∈ xs, SeenBefore leads (names ++ [name]) y x := fun y hy =>
      ⟨names, List.prefix_append names [name], (h.mem_iff y).1 hy, fun n hn hlead =>
        hnew ((h.mem_iff x).2 ⟨n, hn, hlead⟩)⟩
    refine List.pairwise_append.2 ⟨h.inOrder.imp fun hyz => hyz.append [name], ?_, ?_⟩
    · exact List.pairwise_singleton _ x
    · exact fun y hy z hz => List.mem_singleton.1 hz ▸ hbefore y hy

/-- There is only one such list. -/
theorem unique (h : FirstSeen leads names xs) (h' : FirstSeen leads names ys) : xs = ys := by
  have hperm : xs.Perm ys := by
    rw [List.perm_ext_iff_of_nodup h.nodup h'.nodup]
    exact fun x => (h.mem_iff x).trans (h'.mem_iff x).symm
  exact hperm.eq_of_pairwise (fun _ _ _ _ hxy hyx => absurd hyx hxy.asymm) h.inOrder h'.inOrder

/-- The names may all come a second time. -/
theorem append_self (h : FirstSeen leads names xs) : FirstSeen leads (names ++ names) xs :=
  h.append_old fun name hname x hlead => (h.mem_iff x).2 ⟨name, hname, hlead⟩

end FirstSeen

/-- To look names up one after the other and to leave out what has been found before. -/
theorem firstSeen_eraseDups [DecidableEq α] (find? : κ → Option α) (names : List κ) :
    FirstSeen (fun name x => find? name = some x) names (names.filterMap find?).eraseDups := by
  induction names using List.reverseRecOn with
  | nil => exact .nil
  | append_singleton names name ih =>
    rw [List.filterMap_append]
    cases hfind : find? name with
    | none =>
      have hnone : [name].filterMap find? = [] := by simp [hfind]
      rw [hnone, List.append_nil]
      refine ih.append_old fun n hn x hlead => ?_
      rw [List.mem_singleton.1 hn, hfind] at hlead
      cases hlead
    | some x =>
      have hone : [name].filterMap find? = [x] := by simp [hfind]
      have hname : ∀ y, find? name = some y ↔ y = x := fun y => by
        rw [hfind, Option.some.injEq, eq_comm]
      rw [hone, eraseDups_concat]
      split
      · next hold =>
        refine ih.append_old fun n hn y hlead => ?_
        rw [List.mem_singleton.1 hn, hname] at hlead
        exact hlead ▸ hold
      · next hnew => exact ih.concat_new hnew hname

theorem eraseDups_filterMap_eq_iff [DecidableEq α] {find? : κ → Option α}
    (hfind : ∀ name x, find? name = some x ↔ leads name x) :
    (names.filterMap find?).eraseDups = xs ↔ FirstSeen leads names xs := by
  have hleads : (fun name x => find? name = some x) = leads :=
    funext fun name => funext fun x => propext (hfind name x)
  have hseen := firstSeen_eraseDups find? names
  rw [hleads] at hseen
  exact ⟨fun heq => heq ▸ hseen, hseen.unique⟩

end FirstSeen

namespace Owners

variable {o : Owners} {table field : String} {id : StepId}

/-- The token names a field that the step owns. -/
def Named (o : Owners) (token : String) (id : StepId) : Prop :=
  ∃ sheet field, Names token sheet field ∧ o.owner? sheet field = some id

/-- The step owns the field of the table that was registered first. -/
def StandsFor (o : Owners) (table : String) (id : StepId) : Prop :=
  ∃ field, FirstOf o.entries table field ∧ o.owner? table field = some id

/-- The entries for a table are its fields. -/
theorem filter_entries (o : Owners) (table : String) :
    o.entries.filter (·.1 = table) = (o.fieldsOf table).map (table, ·) := by
  have hnodup := o.nodup_tables
  unfold entries fieldsOf
  revert hnodup
  generalize o.tables = tables
  intro hnodup
  induction tables with
  | nil => rfl
  | cons t rest ih =>
    obtain ⟨t, fields⟩ := t
    obtain ⟨hnew, hrest⟩ := List.nodup_cons.1 hnodup
    rw [List.flatMap_cons, List.filter_append, ih hrest, List.lookup_cons, List.filter_map]
    by_cases ht : t = table
    · subst ht
      have hnone : rest.lookup t = none := by
        cases hlookup : rest.lookup t with
        | none => rfl
        | some fields => exact absurd (List.mem_map_of_mem (Assoc.mem_of_lookup hlookup)) hnew
      simp [hnone, Function.comp_def]
    · have hne : (table == t) = false := by simpa using Ne.symm ht
      simp [hne, ht, Function.comp_def]

/-- The field that is listed first is the first of the table. -/
theorem firstOf_entries_iff :
    FirstOf o.entries table field ↔ (Assoc.keys (o.fieldsOf table)).head? = some field := by
  rw [← head?_fieldsIn, fieldsIn, head?_eraseDups, filter_entries, List.map_map]
  exact Iff.rfl

theorem anyOf?_iff_standsFor : o.anyOf? table = some id ↔ o.StandsFor table id := by
  rw [anyOf?_eq_some_iff]
  exact exists_congr fun field => and_congr_left' firstOf_entries_iff.symm

/-- Tokens and tables are resolved to what they lead to, each step once and in the order of the
first that leads to it. -/
theorem resolve_firstSeen (o : Owners) :
    (∀ tokens ids, o.ofTokens tokens = ids ↔ FirstSeen o.Named tokens ids) ∧
    (∀ tables ids, o.ofTables tables = ids ↔ FirstSeen o.StandsFor tables ids) ∧
    ∀ names, o.ofTokens (names ++ names) = o.ofTokens names ∧
      o.ofTables (names ++ names) = o.ofTables names := by
  have htokens : ∀ tokens ids, o.ofTokens tokens = ids ↔ FirstSeen o.Named tokens ids :=
    fun _ _ => eraseDups_filterMap_eq_iff fun _ _ => ofToken?_eq_some_iff
  have htables : ∀ tables ids, o.ofTables tables = ids ↔ FirstSeen o.StandsFor tables ids :=
    fun _ _ => eraseDups_filterMap_eq_iff fun _ _ => anyOf?_iff_standsFor
  refine ⟨htokens, htables, fun names => ⟨?_, ?_⟩⟩
  · exact (htokens _ _).2 ((htokens names _).1 rfl).append_self
  · exact (htables _ _).2 ((htables names _).1 rfl).append_self

/-- Two tokens may lead to one step, and a token may name no field. -/
example :
    let o := ofEntries [("Orders", "Quantity", "h"), ("Orders", "Price", "h"), ("Orders", "Sum", "f")]
    o.ofTokens ["Orders ! Sum", "A!B!C", "Orders!Price", "Orders!Quantity", "Orders!Sum"] = ["f", "h"] ∧
      o.ofTables ["Rates", "Orders"] = ["h"] := by
  decide +kernel

end Owners

end WorkbookPlan
