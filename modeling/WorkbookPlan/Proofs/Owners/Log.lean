import Mathlib.Data.Finset.Card
import Mathlib.Data.List.Induction
import Mathlib.Data.List.Nodup
import WorkbookPlan.Owners

/-! Owners as a log of registrations. Who owns a field is told by the last registration of the field, and
the order of the entries by the first ones: to overwrite an owner moves no entry. -/
namespace WorkbookPlan

/-- A new member goes behind all others. -/
theorem eraseDups_concat {α : Type _} [DecidableEq α] (xs : List α) (x : α) :
    (xs ++ [x]).eraseDups =
      if x ∈ xs.eraseDups then xs.eraseDups else xs.eraseDups ++ [x] := by
  rw [List.eraseDups_append]
  by_cases h : x ∈ xs <;> simp [List.removeAll, h, List.eraseDups_cons]

theorem head?_eraseDups {α : Type _} [BEq α] (xs : List α) : xs.eraseDups.head? = xs.head? := by
  cases xs with
  | nil => rfl
  | cons x xs => rw [List.eraseDups_cons, List.head?_cons, List.head?_cons]

namespace Assoc

variable {α : Type _} {k : String} {v : α} {entries : List (String × α)}

theorem lookup_of_mem (hnodup : (keys entries).Nodup) (h : (k, v) ∈ entries) :
    entries.lookup k = some v := by
  induction entries with
  | nil => cases h
  | cons e rest ih =>
    obtain ⟨hnew, hrest⟩ := List.nodup_cons.1 hnodup
    rcases List.mem_cons.1 h with rfl | h
    · exact List.lookup_cons_self
    · have hne : k ≠ e.1 := fun heq => hnew (List.mem_map.2 ⟨_, h, heq⟩)
      rw [List.lookup_cons, beq_eq_false_iff_ne.2 hne]
      exact ih hrest h

theorem lookup_eq_some_iff (hnodup : (keys entries).Nodup) :
    entries.lookup k = some v ↔ (k, v) ∈ entries :=
  ⟨mem_of_lookup, lookup_of_mem hnodup⟩

end Assoc

namespace Owners

/-- A table, a field of it, and the step that owns the field from then on. -/
abbrev Registration := String × String × StepId

def target (e : Registration) : String × String :=
  (e.1, e.2.1)

/-- The last registration of the field makes the step its owner. -/
def LastFor (log : List Registration) (table field : String) (id : StepId) : Prop :=
  ∃ front back, log = front ++ (table, field, id) :: back ∧ ∀ e ∈ back, target e ≠ (table, field)

/-- The first registration of the table is one of the field. -/
def FirstOf (log : List Registration) (table field : String) : Prop :=
  ∃ front id back, log = front ++ (table, field, id) :: back ∧ ∀ e ∈ front, e.1 ≠ table

/-- Register in turn, and tell the owner before at each. -/
def replaceAll : Owners → List Registration → List (Option StepId) × Owners
  | o, [] => ([], o)
  | o, (table, field, id) :: log =>
    let (prior, o) := o.replace table field id
    let (priors, o) := o.replaceAll log
    (prior :: priors, o)

/-- The tables of a log, in the order of their first registrations. -/
def tablesOf (log : List Registration) : List String :=
  (log.map (·.1)).eraseDups

def fieldsIn (log : List Registration) (table : String) : List String :=
  ((log.filter (·.1 = table)).map (·.2.1)).eraseDups

variable {log : List Registration} {o : Owners} {table field t f : String} {id id' : StepId}

section LastRegistration

theorem lastFor_nil : ¬ LastFor [] table field id := by
  rintro ⟨front, back, hlog, -⟩
  simp at hlog

theorem lastFor_concat_self : LastFor (log ++ [(table, field, id)]) table field id' ↔ id' = id := by
  constructor
  · rintro ⟨front, back, hlog, hback⟩
    rcases List.eq_nil_or_concat' back with rfl | ⟨back, x, rfl⟩
    · simpa using (List.append_inj' hlog rfl).2.symm
    · rw [← List.cons_append, ← List.append_assoc] at hlog
      obtain rfl : (table, field, id) = x := by simpa using (List.append_inj' hlog rfl).2
      exact absurd rfl (hback _ List.mem_concat_self)
  · rintro rfl
    exact ⟨log, [], rfl, List.forall_mem_nil _⟩

theorem lastFor_concat_of_ne {e : Registration} (h : (t, f) ≠ target e) :
    LastFor (log ++ [e]) t f id ↔ LastFor log t f id := by
  constructor
  · rintro ⟨front, back, hlog, hback⟩
    rcases List.eq_nil_or_concat' back with rfl | ⟨back, x, rfl⟩
    · obtain rfl : e = (t, f, id) := by simpa using (List.append_inj' hlog rfl).2
      exact absurd rfl h
    · rw [← List.cons_append, ← List.append_assoc] at hlog
      exact ⟨front, back, (List.append_inj' hlog rfl).1, fun e he =>
        hback e (List.mem_append_left _ he)⟩
  · rintro ⟨front, back, rfl, hback⟩
    refine ⟨front, back ++ [e], by simp, fun x hx => ?_⟩
    rcases List.mem_append.1 hx with hx | hx
    · exact hback x hx
    · exact List.mem_singleton.1 hx ▸ h.symm

end LastRegistration

theorem ofEntries_concat (log : List Registration) (e : Registration) :
    ofEntries (log ++ [e]) = (ofEntries log).register e.1 e.2.1 e.2.2 := by
  rw [ofEntries, List.foldl_append]
  rfl

/-- The owner is the step of the last registration. -/
theorem owner?_ofEntries : (ofEntries log).owner? t f = some id ↔ LastFor log t f id := by
  induction log using List.reverseRecOn with
  | nil => exact iff_of_false (fun h => nomatch h) lastFor_nil
  | append_singleton log e ih =>
    obtain ⟨table, field, new⟩ := e
    rw [ofEntries_concat]
    by_cases h : (t, f) = (table, field)
    · obtain ⟨rfl, rfl⟩ := Prod.mk.inj h
      rw [owner?_register_self, lastFor_concat_self, Option.some.injEq, eq_comm]
    · rw [owner?_register_of_ne h, lastFor_concat_of_ne h, ih]

/-- The answers are the owners of the prefixes of the log. -/
theorem forall₂_replaceAll (front log : List Registration) :
    List.Forall₂ (fun x prior => ∀ id, prior = some id ↔
        LastFor ((front ++ log).take x.2) x.1.1 x.1.2.1 id)
      (log.zipIdx front.length) ((ofEntries front).replaceAll log).1 := by
  induction log generalizing front with
  | nil => exact .nil
  | cons e log ih =>
    refine .cons (fun id => ?_) ?_
    · rw [List.take_left]
      exact owner?_ofEntries
    · have hlater := ih (front ++ [e])
      rw [ofEntries_concat, List.append_assoc, List.length_append] at hlater
      exact hlater

theorem replaceAll_snd (o : Owners) (log : List Registration) :
    (o.replaceAll log).2 = log.foldl (fun o e => o.register e.1 e.2.1 e.2.2) o := by
  induction log generalizing o with
  | nil => rfl
  | cons e log ih => exact ih _

section Order

theorem tablesOf_concat (log : List Registration) (e : Registration) :
    tablesOf (log ++ [e]) =
      if e.1 ∈ tablesOf log then tablesOf log else tablesOf log ++ [e.1] := by
  rw [tablesOf, List.map_append]
  exact eraseDups_concat _ _

theorem fieldsIn_concat_self (log : List Registration) (e : Registration) :
    fieldsIn (log ++ [e]) e.1 =
      if e.2.1 ∈ fieldsIn log e.1 then fieldsIn log e.1 else fieldsIn log e.1 ++ [e.2.1] := by
  rw [fieldsIn, List.filter_append, List.filter_cons_of_pos (by simp), List.map_append]
  exact eraseDups_concat _ _

theorem fieldsIn_concat_of_ne {e : Registration} (h : table ≠ e.1) (log : List Registration) :
    fieldsIn (log ++ [e]) table = fieldsIn log table := by
  rw [fieldsIn, List.filter_append, List.filter_cons_of_neg (by simpa using h.symm), List.filter_nil,
    List.append_nil, fieldsIn]

/-- The names of the tables, in order. -/
theorem keys_tables_ofEntries (log : List Registration) :
    Assoc.keys (ofEntries log).tables = tablesOf log := by
  induction log using List.reverseRecOn with
  | nil => rfl
  | append_singleton log e ih =>
    rw [ofEntries_concat, register, Assoc.keys_put, ih, tablesOf_concat]

/-- The names of the fields of a table, in order. -/
theorem keys_fieldsOf_ofEntries (log : List Registration) (table : String) :
    Assoc.keys ((ofEntries log).fieldsOf table) = fieldsIn log table := by
  induction log using List.reverseRecOn with
  | nil => rfl
  | append_singleton log e ih =>
    rw [ofEntries_concat]
    by_cases h : table = e.1
    · subst h
      rw [fieldsOf_register_self, Assoc.keys_put, ih, fieldsIn_concat_self]
    · rw [fieldsOf_register_of_ne h, ih, fieldsIn_concat_of_ne h]

/-- The fields of a listed table are those that are found under its name. -/
theorem fieldsOf_eq_of_mem {fields : List (String × StepId)} (h : (table, fields) ∈ o.tables) :
    o.fieldsOf table = fields := by
  rw [fieldsOf, Assoc.lookup_of_mem o.nodup_tables h, Option.getD_some]

theorem mem_entries_iff : (table, field, id) ∈ o.entries ↔ o.owner? table field = some id := by
  rw [owner?, Assoc.lookup_eq_some_iff (o.nodup_fieldsOf table), entries, List.mem_flatMap]
  constructor
  · rintro ⟨⟨table', fields⟩, ht, he⟩
    obtain ⟨⟨field', id'⟩, hf, heq⟩ := List.mem_map.1 he
    cases heq
    rwa [fieldsOf_eq_of_mem ht]
  · intro h
    cases ht : o.tables.lookup table with
    | none => simp [fieldsOf, ht] at h
    | some fields =>
      have hmem := Assoc.mem_of_lookup ht
      rw [fieldsOf_eq_of_mem hmem] at h
      exact ⟨_, hmem, List.mem_map.2 ⟨_, h, rfl⟩⟩

/-- The fields with an owner, table by table. -/
theorem map_target_entries (o : Owners) : o.entries.map target =
    (Assoc.keys o.tables).flatMap fun t => (Assoc.keys (o.fieldsOf t)).map (t, ·) := by
  rw [entries, List.map_flatMap, Assoc.keys, List.flatMap_map]
  refine List.flatMap_congr fun t ht => ?_
  rw [fieldsOf_eq_of_mem ht, Assoc.keys, List.map_map, List.map_map]
  rfl

theorem nodup_targets (o : Owners) : (o.entries.map target).Nodup := by
  rw [map_target_entries, List.nodup_flatMap]
  refine ⟨fun t _ => (o.nodup_fieldsOf t).map (Prod.mk_right_injective t), ?_⟩
  refine o.nodup_tables.imp fun {t u} hne => ?_
  intro p ht hu
  obtain ⟨_, -, rfl⟩ := List.mem_map.1 ht
  obtain ⟨_, -, hsame⟩ := List.mem_map.1 hu
  exact hne (Prod.mk.inj hsame).1.symm

/-- Each field that has been registered is listed under its table. -/
theorem mem_targets_iff {p : String × String} :
    p ∈ (tablesOf log).flatMap (fun table => (fieldsIn log table).map (table, ·)) ↔
      p ∈ log.map target := by
  simp only [tablesOf, fieldsIn, List.mem_flatMap, List.mem_map, List.mem_eraseDups, List.mem_filter,
    decide_eq_true_eq, target]
  constructor
  · rintro ⟨_, -, _, ⟨e, ⟨he, rfl⟩, rfl⟩, rfl⟩
    exact ⟨e, he, rfl⟩
  · rintro ⟨e, he, rfl⟩
    exact ⟨e.1, ⟨e, he, rfl⟩, e.2.1, ⟨e, ⟨he, rfl⟩, rfl⟩, rfl⟩

/-- The step that stands for a table owns the first of its fields. -/
theorem anyOf?_eq_some_iff : o.anyOf? table = some id ↔
    ∃ field, (Assoc.keys (o.fieldsOf table)).head? = some field ∧ o.owner? table field = some id := by
  rw [anyOf?, Assoc.keys, List.head?_map]
  simp only [owner?]
  cases o.fieldsOf table with
  | nil => simp
  | cons e rest =>
    have hfirst : (e :: rest).lookup e.1 = some e.2 := List.lookup_cons_self
    simp [hfirst]

/-- The field of a table that is registered first comes first. -/
theorem head?_fieldsIn : (fieldsIn log table).head? = some field ↔ FirstOf log table field := by
  rw [fieldsIn, head?_eraseDups, List.head?_map, List.head?_filter, Option.map_eq_some_iff]
  constructor
  · rintro ⟨⟨t, f, id⟩, hfind, rfl⟩
    obtain ⟨ht, front, back, rfl, hfront⟩ := List.find?_eq_some_iff_append.1 hfind
    obtain rfl : t = table := by simpa using ht
    exact ⟨front, id, back, rfl, fun e he => by simpa using hfront e he⟩
  · rintro ⟨front, id, back, rfl, hfront⟩
    refine ⟨(table, field, id), List.find?_eq_some_iff_append.2 ?_, rfl⟩
    exact ⟨by simp, front, back, rfl, fun e he => by simpa using hfront e he⟩

end Order

/-- What a log of registrations leaves: the last owners, with tables and fields in the order of
their first registrations. -/
theorem replaceAll_log (log : List Registration) :
    let o := (empty.replaceAll log).2
    List.Forall₂ (fun x prior => ∀ id, prior = some id ↔
      LastFor (log.take x.2) x.1.1 x.1.2.1 id) log.zipIdx (empty.replaceAll log).1 ∧
    (∀ table field id, o.owner? table field = some id ↔ LastFor log table field id) ∧
    (∀ table id, o.anyOf? table = some id ↔
      ∃ field, FirstOf log table field ∧ LastFor log table field id) ∧
    (∀ table field id, (table, field, id) ∈ o.entries ↔ LastFor log table field id) ∧
    (o.entries.map target).Nodup ∧
    o.entries.map target =
      (log.map (·.1)).eraseDups.flatMap (fun table =>
        ((log.filter (·.1 = table)).map (·.2.1)).eraseDups.map (table, ·)) ∧
    o.size = (log.map target).toFinset.card := by
  intro o
  have ho : o = ofEntries log := replaceAll_snd empty log
  have howner : ∀ table field id, o.owner? table field = some id ↔ LastFor log table field id :=
    fun _ _ _ => ho ▸ owner?_ofEntries
  have hentries : o.entries.map target =
      (tablesOf log).flatMap fun table => (fieldsIn log table).map (table, ·) := by
    rw [map_target_entries, ho, keys_tables_ofEntries]
    exact List.flatMap_congr fun table _ => by rw [keys_fieldsOf_ofEntries]
  have hany : ∀ table id, o.anyOf? table = some id ↔
      ∃ field, FirstOf log table field ∧ LastFor log table field id := by
    intro table id
    rw [anyOf?_eq_some_iff]
    refine exists_congr fun field => ?_
    rw [howner, ho, keys_fieldsOf_ofEntries, head?_fieldsIn]
  have hmem : ∀ table field id, (table, field, id) ∈ o.entries ↔ LastFor log table field id :=
    fun table field id => by rw [mem_entries_iff, howner]
  have hsize : o.size = (log.map target).toFinset.card := by
    have hsame : (o.entries.map target).toFinset = (log.map target).toFinset := by
      ext p
      rw [List.mem_toFinset, List.mem_toFinset, hentries]
      exact mem_targets_iff
    rw [← hsame, List.toFinset_card_of_nodup (nodup_targets o), List.length_map, size]
  exact ⟨forall₂_replaceAll [] log, howner, hany, hmem, nodup_targets o, hentries, hsize⟩

/-- To overwrite an owner moves no entry. -/
example :
    let log : List Registration := [("A", "x", "1"), ("B", "y", "2"), ("A", "z", "3"), ("A", "x", "4")]
    let (priors, o) := empty.replaceAll log
    priors = [none, none, none, some "1"] ∧ o.anyOf? "A" = some "4" ∧
      o.entries = [("A", "x", "4"), ("A", "z", "3"), ("B", "y", "2")] := by
  decide +kernel

end Owners

end WorkbookPlan
