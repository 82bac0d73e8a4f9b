import WorkbookPlan.Proofs.Draft.Ordered

/-! The first part of a draft. Each table is there once, with the step that makes its sheet and the
step that writes its headers; the latter owns all its fields. -/
namespace WorkbookPlan

namespace Schema

variable {s : Schema} {acc tables : List Table} {t : Table}

private def addTable (acc : List Table) (t : Table) : List Table :=
  if acc.any (·.name == t.name) then acc else acc ++ [t]

private theorem addTable_eq_self (h : t.name ∈ acc.map (·.name)) : addTable acc t = acc := by
  rw [addTable, if_pos]
  simpa using h

private theorem addTable_eq_snoc (h : t.name ∉ acc.map (·.name)) : addTable acc t = acc ++ [t] := by
  rw [addTable, if_neg]
  simpa using h

private theorem nodup_addTable (h : (acc.map (·.name)).Nodup) (t : Table) :
    ((addTable acc t).map (·.name)).Nodup := by
  by_cases ht : t.name ∈ acc.map (·.name)
  · rw [addTable_eq_self ht]
    exact h
  · rw [addTable_eq_snoc ht, List.map_append, List.nodup_append]
    exact ⟨h, List.nodup_singleton _, fun a ha b hb hab => ht (by simp_all)⟩

/-- Of the tables of one name the first is taken. -/
private theorem mem_foldl_addTable : t ∈ tables.foldl addTable acc ↔
    t ∈ acc ∨ t.name ∉ acc.map (·.name) ∧ tables.find? (·.name == t.name) = some t := by
  induction tables generalizing acc with
  | nil => simp
  | cons x tables ih =>
    rw [List.foldl_cons, ih]
    by_cases hx : x.name ∈ acc.map (·.name)
    · rw [addTable_eq_self hx]
      refine or_congr_right (and_congr_right fun ht => ?_)
      have hne : (x.name == t.name) = false := by
        simpa using fun h : x.name = t.name => ht (h ▸ hx)
      rw [List.find?_cons, hne]
    · rw [addTable_eq_snoc hx, List.find?_cons]
      by_cases hname : x.name = t.name
      · have hacc : t ∉ acc := fun ht => hx (hname ▸ List.mem_map_of_mem ht)
        simp [hname, hacc, eq_comm, hname ▸ hx]
      · have hne : (x.name == t.name) = false := by simpa using hname
        grind

theorem name_of_table? {name : String} (h : s.table? name = some t) : t.name = name := by
  simpa using List.find?_some h

/-- The schema finds a field if the first table of the name has it. -/
theorem isSome_field?_iff {name field : String} : (s.field? name field).isSome ↔
    ∃ t, s.table? name = some t ∧ field ∈ t.fieldNames := by
  constructor
  · intro h
    obtain ⟨f, hf⟩ := Option.isSome_iff_exists.1 h
    obtain ⟨t, ht, hf⟩ := Option.bind_eq_some_iff.1 hf
    have hfield : f.name = field := by simpa using List.find?_some hf
    exact ⟨t, ht, hfield ▸ List.mem_map_of_mem (List.mem_of_find?_eq_some hf)⟩
  · rintro ⟨t, ht, hfield⟩
    obtain ⟨f, hf, rfl⟩ := List.mem_map.1 hfield
    rw [field?, ht, Option.bind_some, Table.field?, List.find?_isSome]
    exact ⟨f, hf, beq_self_eq_true _⟩

/-- A table stands for its name if the schema finds it under the name. -/
theorem mem_orderedTables : t ∈ s.orderedTables ↔ s.table? t.name = some t := by
  have hfold : s.orderedTables =
      (s.executionOrder.filterMap s.table? ++ s.tables).foldl addTable [] := rfl
  have hfind : (s.executionOrder.filterMap s.table? ++ s.tables).find? (·.name == t.name) =
      s.table? t.name := by
    rw [List.find?_append]
    cases h : (s.executionOrder.filterMap s.table?).find? (·.name == t.name) with
    | none => rfl
    | some u =>
      obtain ⟨name, -, hu⟩ := List.mem_filterMap.1 (List.mem_of_find?_eq_some h)
      have hsame : u.name = t.name := by simpa using List.find?_some h
      rw [Option.some_or, ← hu, ← hsame, name_of_table? hu]
  rw [hfold, mem_foldl_addTable, hfind]
  simp

theorem nodup_orderedTables (s : Schema) : (s.orderedTables.map (·.name)).Nodup :=
  List.foldlRecOn (motive := fun tables : List Table => (tables.map (·.name)).Nodup)
    (s.executionOrder.filterMap s.table? ++ s.tables) addTable List.nodup_nil
    fun _ h t _ => nodup_addTable h t

/-- Names that are there already are left out, and so are repetitions. -/
private theorem map_name_foldl_addTable : (tables.foldl addTable acc).map (·.name) =
    acc.map (·.name) ++ ((tables.map (·.name)).filter (· ∉ acc.map (·.name))).eraseDups := by
  induction tables generalizing acc with
  | nil => simp
  | cons t tables ih =>
    rw [List.foldl_cons, ih, List.map_cons]
    by_cases ht : t.name ∈ acc.map (·.name)
    · rw [addTable_eq_self ht, List.filter_cons_of_neg (by simpa using ht)]
    · rw [addTable_eq_snoc ht, List.filter_cons_of_pos (by simpa using ht), List.eraseDups_cons,
        List.filter_filter, List.map_append, List.append_assoc, List.map_singleton,
        List.singleton_append]
      congr 3
      refine List.filter_congr fun name _ => ?_
      rw [Bool.eq_iff_iff]
      simp only [List.mem_append, List.mem_singleton, decide_eq_true_eq, Bool.and_eq_true,
        Bool.not_eq_true', beq_eq_false_iff_ne]
      tauto

theorem table?_eq_none_iff {name : String} :
    s.table? name = none ↔ name ∉ s.tables.map (·.name) := by
  simp [table?]

theorem map_name_filterMap_table? (s : Schema) (names : List String) :
    (names.filterMap s.table?).map (·.name) = names.filter (· ∈ s.tables.map (·.name)) := by
  induction names with
  | nil => rfl
  | cons name names ih =>
    cases ht : s.table? name with
    | none =>
      have hunknown := table?_eq_none_iff.1 ht
      rw [List.filterMap_cons_none ht, ih, List.filter_cons_of_neg (by simpa using hunknown)]
    | some t =>
      have hknown : name ∈ s.tables.map (·.name) :=
        name_of_table? ht ▸ List.mem_map_of_mem (List.mem_of_find?_eq_some ht)
      rw [List.filterMap_cons_some ht, List.map_cons, ih, name_of_table? ht,
        List.filter_cons_of_pos (by simpa using hknown)]

/-- The names of the execution order come first, then those that are missing in it. -/
theorem map_name_orderedTables (s : Schema) : s.orderedTables.map (·.name) =
    (s.executionOrder.filter (· ∈ s.tables.map (·.name))).eraseDups ++
      ((s.tables.map (·.name)).filter (· ∉ s.executionOrder)).eraseDups := by
  have hfold : s.orderedTables =
      (s.executionOrder.filterMap s.table? ++ s.tables).foldl addTable [] := rfl
  have hmissing : (s.tables.map (·.name)).removeAll
      (s.executionOrder.filter (· ∈ s.tables.map (·.name))) =
        (s.tables.map (·.name)).filter (· ∉ s.executionOrder) := by
    refine List.filter_congr fun name hname => ?_
    have hknown : ∃ t ∈ s.tables, t.name = name := List.mem_map.1 hname
    simp [hknown]
  rw [hfold, map_name_foldl_addTable, List.map_append, map_name_filterMap_table?, ← hmissing,
    ← List.eraseDups_append]
  simp

/-- Each table stands for its name. -/
theorem filterMap_table?_orderedTables (s : Schema) :
    (s.orderedTables.map (·.name)).filterMap s.table? = s.orderedTables := by
  rw [List.filterMap_map]
  refine (List.filterMap_congr fun t ht => ?_).trans List.filterMap_some
  exact mem_orderedTables.1 ht

end Schema

namespace Owners

theorem owner?_registerAll (o : Owners) (table : String) (id : StepId) (fields : List Field)
    (t f : String) :
    (fields.foldl (fun o f => o.register table f.name id) o).owner? t f =
      if t = table ∧ f ∈ fields.map (·.name) then some id else o.owner? t f := by
  induction fields generalizing o with
  | nil => simp
  | cons x fields ih =>
    rw [List.foldl_cons, ih]
    by_cases hx : (t, f) = (table, x.name)
    · obtain ⟨rfl, rfl⟩ := Prod.mk.inj hx
      simp
    · rw [owner?_register_of_ne hx]
      have hne : t = table → f ≠ x.name := fun ht hf => hx (by rw [ht, hf])
      by_cases ht : t = table
      · simp [ht, hne ht]
      · simp [ht]

end Owners

namespace Draft

variable {d : Draft} {t : Table} {done : List Table}

/-- These two steps make the sheet of a table, and no other step works on it. -/
structure Built (d : Draft) (t : Table) (create headers : Step) : Prop where
  mem_create : create ∈ d.steps
  mem_headers : headers ∈ d.steps
  action_create : create.action = Action.createSheet
  action_headers : headers.action = Action.writeHeaders
  sheet_create : create.sheet? = some t.name
  sheet_headers : headers.sheet? = some t.name
  waits : create.id ∈ headers.dependsOn
  owns : ∀ f ∈ t.fieldNames, d.owners.owner? t.name f = some headers.id
  only : ∀ s ∈ d.steps, s.sheet? = some t.name → s = create ∨ s = headers

/-- The draft consists of the sheets of these tables. -/
structure Structured (done : List Table) (d : Draft) : Prop where
  built : ∀ t ∈ done, ∃ create headers, d.Built t create headers
  sheets : ∀ s ∈ d.steps, ∃ t ∈ done, s.sheet? = some t.name

theorem sheet?_creation (d : Draft) (t : Table) : (d.creation t).sheet? = some t.name :=
  rfl

theorem sheet?_heading (d : Draft) (t : Table) : (d.heading t).sheet? = some t.name := by
  have hkeys : "sheet" ≠ "headers" ∧ "sheet" ≠ "range" := by decide
  simp [heading, writeHeaders, Step.sheet?, Step.param?, Json.textAt?, Json.get?, Json.object,
    Keyed.ofList, Keyed.lookup_insert_of_ne, Keyed.lookup_insert_self, hkeys, Json.str?]

theorem mem_steps_withTable {s : Step} :
    s ∈ (d.withTable t).steps ↔ s ∈ d.steps ∨ s = d.creation t ∨ s = d.heading t := by
  rw [steps_withTable]
  simp

/-- Each step of the sheets has been added for one table, when the tables before it were done. -/
theorem exists_stage_of_mem (d : Draft) {tables : List Table} {s : Step}
    (hs : s ∈ (tables.foldl Draft.withTable d).steps) :
    s ∈ d.steps ∨ ∃ done t rest, tables = done ++ t :: rest ∧
      (s = (done.foldl Draft.withTable d).creation t ∨
        s = (done.foldl Draft.withTable d).heading t) := by
  induction tables generalizing d with
  | nil => exact .inl hs
  | cons t tables ih =>
    rcases ih (d.withTable t) hs with hfirst | ⟨done, u, rest, rfl, hu⟩
    · rcases mem_steps_withTable.1 hfirst with hold | hnew
      · exact .inl hold
      · exact .inr ⟨[], t, tables, rfl, hnew⟩
    · exact .inr ⟨t :: done, u, rest, rfl, hu⟩

theorem Built.withTable {u : Table} {create headers : Step} (h : d.Built u create headers)
    (hne : u.name ≠ t.name) : (d.withTable t).Built u create headers := by
  refine { h with
    mem_create := mem_steps_withTable.2 (.inl h.mem_create)
    mem_headers := mem_steps_withTable.2 (.inl h.mem_headers)
    owns := fun f hf => ?_
    only := fun s hs hsheet => ?_ }
  · rw [owners_withTable, Owners.owner?_registerAll, if_neg fun h => hne h.1]
    exact h.owns f hf
  · rcases mem_steps_withTable.1 hs with hold | rfl | rfl
    · exact h.only s hold hsheet
    · exact absurd (Option.some.inj hsheet).symm hne
    · rw [sheet?_heading] at hsheet
      exact absurd (Option.some.inj hsheet).symm hne

theorem Structured.withTable (hd : d.Structured done) (hnew : t.name ∉ done.map (·.name)) :
    (d.withTable t).Structured (done ++ [t]) where
  built u hu := by
    rcases List.mem_append.1 hu with hold | hu
    · obtain ⟨create, headers, h⟩ := hd.built u hold
      exact ⟨create, headers, h.withTable fun hname => hnew (hname ▸ List.mem_map_of_mem hold)⟩
    · obtain rfl := List.mem_singleton.1 hu
      refine ⟨d.creation u, d.heading u, mem_steps_withTable.2 (by simp),
        mem_steps_withTable.2 (by simp), rfl, rfl, sheet?_creation d u, sheet?_heading d u,
        List.mem_singleton_self _, fun f hf => ?_, fun s hs hsheet => ?_⟩
      · rw [owners_withTable, Owners.owner?_registerAll, if_pos ⟨rfl, hf⟩]
      · refine (mem_steps_withTable.1 hs).resolve_left fun hold => hnew ?_
        obtain ⟨v, hv, hsame⟩ := hd.sheets s hold
        rw [Option.some.inj (hsheet.symm.trans hsame)]
        exact List.mem_map_of_mem hv
  sheets s hs := by
    rcases mem_steps_withTable.1 hs with hold | rfl | rfl
    · obtain ⟨u, hu, hsheet⟩ := hd.sheets s hold
      exact ⟨u, List.mem_append_left _ hu, hsheet⟩
    · exact ⟨t, by simp, sheet?_creation d t⟩
    · exact ⟨t, by simp, sheet?_heading d t⟩

theorem Structured.withTables (hd : d.Structured done) {tables : List Table}
    (hnodup : ((done ++ tables).map (·.name)).Nodup) :
    (tables.foldl Draft.withTable d).Structured (done ++ tables) := by
  induction tables generalizing d done with
  | nil => rwa [List.append_nil]
  | cons t tables ih =>
    have hnew : t.name ∉ done.map (·.name) := by
      rw [List.map_append, List.nodup_append] at hnodup
      exact fun h => hnodup.2.2 _ h _ List.mem_cons_self rfl
    have hcons : done ++ t :: tables = (done ++ [t]) ++ tables := by simp
    rw [hcons] at hnodup ⊢
    exact ih (hd.withTable hnew) hnodup

/-- The sheets of some tables with different names. -/
theorem structured_withTables (names : List String) {tables : List Table}
    (hnodup : (tables.map (·.name)).Nodup) :
    (tables.foldl Draft.withTable { tables := names }).Structured tables := by
  have hempty : ({ tables := names } : Draft).Structured [] :=
    ⟨fun _ h => (nomatch h), fun _ h => (nomatch h)⟩
  exact hempty.withTables hnodup

def sheetsOf (schema : Schema) : Draft :=
  schema.orderedTables.foldl Draft.withTable { tables := schema.orderedTables.map (·.name) }

theorem structured_sheetsOf (schema : Schema) :
    (sheetsOf schema).Structured schema.orderedTables :=
  structured_withTables _ schema.nodup_orderedTables

end Draft

end WorkbookPlan
