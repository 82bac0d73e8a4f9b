import WorkbookPlan.Proofs.Draft.Parts
import WorkbookPlan.Proofs.Owners.Log

/-! What the sheet of a table waits for. The tables that a table names as its sources are waited for
through the headers that own their fields. So a source with a field is made first, and a source without
fields is not waited for at all. -/
namespace WorkbookPlan

open Relation Step

namespace Owners

variable {o : Owners} {table field : String} {id : StepId}

theorem isSome_anyOf? (h : o.owner? table field = some id) : (o.anyOf? table).isSome := by
  rw [owner?] at h
  rw [anyOf?]
  cases hfields : o.fieldsOf table with
  | nil =>
    rw [hfields] at h
    cases h
  | cons e rest => rfl

end Owners

namespace Draft

variable {settings : Settings} {schema : Schema} {tables done rest : List Table} {t source : Table}
  {s : Step} {id : StepId} {i j : Nat}

/-- Among the sheets of some tables, the headers of a table stand for it, if it has fields. -/
theorem anyOf?_withTables_iff (names : List String) (hnodup : (tables.map (·.name)).Nodup)
    {name : String} :
    let d := tables.foldl withTable { tables := names }
    d.owners.anyOf? name = some id ↔
      ∃ t ∈ tables, t.name = name ∧ t.fields ≠ [] ∧ ∃ s ∈ d.steps,
        s.action = Action.writeHeaders ∧ s.sheet? = some name ∧ s.id = id := by
  intro d
  constructor
  · intro h
    obtain ⟨field, -, howner⟩ := Owners.anyOf?_eq_some_iff.1 h
    obtain ⟨t, ht, hname, hfield, hheaders⟩ := (owner?_withTables_iff names hnodup).1 howner
    have hsome : t.fields ≠ [] := fun hnone => by simp [Table.fieldNames, hnone] at hfield
    exact ⟨t, ht, hname, hsome, hheaders⟩
  · rintro ⟨t, ht, hname, hsome, hheaders⟩
    have howner : ∀ field ∈ t.fieldNames, d.owners.owner? name field = some id :=
      fun field hfield => (owner?_withTables_iff names hnodup).2 ⟨t, ht, hname, hfield, hheaders⟩
    obtain ⟨f, hf⟩ := List.exists_mem_of_ne_nil _ hsome
    have hstands := Owners.isSome_anyOf? (howner f.name (List.mem_map_of_mem hf))
    obtain ⟨id', hid'⟩ := Option.isSome_iff_exists.1 hstands
    obtain ⟨field, -, howner'⟩ := Owners.anyOf?_eq_some_iff.1 hid'
    obtain ⟨u, hu, huname, hfield, -⟩ := (owner?_withTables_iff names hnodup).1 howner'
    obtain rfl := List.inj_on_of_nodup_map hnodup hu ht (huname.trans hname.symm)
    rw [hid', ← howner', howner field hfield]

/-- The sheet of a table waits for the headers of those sources that are there already and have
fields. -/
theorem mem_dependsOn_creation (names : List String) (hnodup : (tables.map (·.name)).Nodup) :
    let d := tables.foldl withTable { tables := names }
    id ∈ (d.creation t).dependsOn ↔
      ∃ u ∈ tables, u.name ∈ t.dependsOn ∧ u.fields ≠ [] ∧ ∃ s ∈ d.steps,
        s.action = Action.writeHeaders ∧ s.sheet? = some u.name ∧ s.id = id := by
  intro d
  have hdeps : (d.creation t).dependsOn = (t.dependsOn.filterMap d.owners.anyOf?).eraseDups := rfl
  rw [hdeps, List.mem_eraseDups, List.mem_filterMap]
  constructor
  · rintro ⟨name, hname, hstands⟩
    obtain ⟨u, hu, rfl, hsome, hheaders⟩ := (anyOf?_withTables_iff names hnodup).1 hstands
    exact ⟨u, hu, hname, hsome, hheaders⟩
  · rintro ⟨u, hu, hname, hsome, hheaders⟩
    exact ⟨u.name, hname, (anyOf?_withTables_iff names hnodup).2 ⟨u, hu, rfl, hsome, hheaders⟩⟩

theorem steps_withTables_prefix (d : Draft) (done rest : List Table) :
    (done.foldl withTable d).steps <+: ((done ++ rest).foldl withTable d).steps := by
  obtain ⟨sheets, hsteps, -⟩ := exists_steps_withTables (done.foldl withTable d) rest
  rw [List.foldl_append, hsteps]
  exact List.prefix_append _ _

/-- The draft with the sheets of the tables that come before a table. -/
def stage (schema : Schema) (done : List Table) : Draft :=
  done.foldl withTable { tables := schema.orderedTables.map (·.name) }

section Stage

variable (hsplit : schema.orderedTables = done ++ t :: rest)

include hsplit

theorem steps_stage_subset : (stage schema done).steps ⊆ (sheetsOf schema).steps := by
  have hprefix := steps_withTables_prefix { tables := schema.orderedTables.map (·.name) } done
    (t :: rest)
  rw [← hsplit] at hprefix
  exact hprefix.subset

theorem creation_stage_mem : (stage schema done).creation t ∈ (sheetsOf schema).steps := by
  have hprefix := steps_withTables_prefix { tables := schema.orderedTables.map (·.name) }
    (done ++ [t]) rest
  rw [List.append_assoc, List.singleton_append, ← hsplit, List.foldl_append] at hprefix
  exact hprefix.subset (mem_steps_withTable.2 (.inr (.inl rfl)))

theorem nodup_stage : (done.map (·.name)).Nodup := by
  have hnodup := schema.nodup_orderedTables
  rw [hsplit, List.map_append] at hnodup
  exact (List.nodup_append.1 hnodup).1

end Stage

/-- A source without fields: what is not on its sheet waits for nothing on its sheet. -/
theorem waits_elsewhere (hsource : schema.table? source.name = some source)
    (hnone : source.fields = []) (hs : s ∈ (sheetsOf schema).steps)
    (hsheet : s.sheet? ≠ some source.name) (hid : id ∈ s.dependsOn) :
    ∃ w ∈ (sheetsOf schema).steps, w.id = id ∧ w.sheet? ≠ some source.name := by
  obtain ⟨done, t, rest, hsplit, rfl | rfl⟩ :=
    (exists_stage_of_mem _ hs).resolve_left (fun h => nomatch h)
  · obtain ⟨u, hu, -, hsome, w, hw, -, hwsheet, hwid⟩ :=
      (mem_dependsOn_creation _ (nodup_stage hsplit)).1 hid
    refine ⟨w, steps_stage_subset hsplit hw, hwid, fun hsame => hsome ?_⟩
    have hmem : u ∈ schema.orderedTables := hsplit ▸ List.mem_append_left _ hu
    have hname : u.name = source.name := Option.some.inj (hwsheet.symm.trans hsame)
    have htable := Schema.mem_orderedTables.1 hmem
    rw [hname, hsource] at htable
    obtain rfl := Option.some.inj htable
    exact hnone
  · refine ⟨_, creation_stage_mem hsplit, (List.mem_singleton.1 hid).symm, ?_⟩
    rwa [sheet?_heading] at hsheet

/-- No way leads from another sheet to the sheet of a source without fields. -/
theorem not_reaches_source (hsource : schema.table? source.name = some source)
    (hnone : source.fields = []) {u v : Step} (hu : u ∈ (sheetsOf schema).steps)
    (husheet : u.sheet? ≠ some source.name) (hv : v ∈ (ofSchema settings schema).steps)
    (hvsheet : v.sheet? = some source.name) :
    ¬ TransGen (Needs (ofSchema settings schema).steps) u.id v.id := by
  have hnodup := (sound_ofSchema settings schema).ordered.nodup_ids
  have hstep {w : Step} {id : StepId} (hw : w ∈ (sheetsOf schema).steps)
      (hwsheet : w.sheet? ≠ some source.name)
      (hneeds : Needs (ofSchema settings schema).steps w.id id) :
      ∃ x ∈ (sheetsOf schema).steps, x.id = id ∧ x.sheet? ≠ some source.name := by
    obtain ⟨s, hs, hsame, hid⟩ := hneeds
    obtain rfl := List.inj_on_of_nodup_map hnodup hs (sheetsOf_subset settings hw) hsame
    exact waits_elsewhere hsource hnone hw hwsheet hid
  have hreached {id : StepId} (hpath : TransGen (Needs (ofSchema settings schema).steps) u.id id) :
      ∃ x ∈ (sheetsOf schema).steps, x.id = id ∧ x.sheet? ≠ some source.name := by
    induction hpath with
    | single hneeds => exact hstep hu husheet hneeds
    | tail _ hneeds ih =>
      obtain ⟨w, hw, rfl, hwsheet⟩ := ih
      exact hstep hw hwsheet hneeds
  intro hpath
  obtain ⟨x, hx, hid, hxsheet⟩ := hreached hpath
  obtain rfl := List.inj_on_of_nodup_map hnodup (sheetsOf_subset settings hx) hv hid
  exact hxsheet hvsheet

/-- The sheet of a table waits for the headers of an earlier source with fields, and these for the
sheet of the source. -/
theorem reaches_source (settings : Settings) (hsplit : schema.orderedTables = done ++ t :: rest)
    (hsource : source ∈ done) (hnamed : source.name ∈ t.dependsOn) (hsome : source.fields ≠ []) :
    ∃ u ∈ (ofSchema settings schema).steps, ∃ v ∈ (ofSchema settings schema).steps,
      u.Creates t.name ∧ v.Creates source.name ∧
        TransGen (Needs (ofSchema settings schema).steps) u.id v.id := by
  have hnodup := nodup_stage hsplit
  obtain ⟨create, headers, hbuilt⟩ :=
    (structured_withTables (schema.orderedTables.map (·.name)) hnodup).built source hsource
  have hfinal : (stage schema done).steps ⊆ (ofSchema settings schema).steps :=
    List.Subset.trans (steps_stage_subset hsplit) (sheetsOf_subset settings)
  have hcreation : (stage schema done).creation t ∈ (ofSchema settings schema).steps :=
    sheetsOf_subset settings (creation_stage_mem hsplit)
  have hwaits : headers.id ∈ ((stage schema done).creation t).dependsOn :=
    (mem_dependsOn_creation _ hnodup).2 ⟨source, hsource, hnamed, hsome, headers,
      hbuilt.mem_headers, hbuilt.action_headers, hbuilt.sheet_headers, rfl⟩
  have hfirst : Needs (ofSchema settings schema).steps ((stage schema done).creation t).id
      headers.id := ⟨_, hcreation, rfl, hwaits⟩
  have hsecond : Needs (ofSchema settings schema).steps headers.id create.id :=
    ⟨_, hfinal hbuilt.mem_headers, rfl, hbuilt.waits⟩
  exact ⟨_, hcreation, create, hfinal hbuilt.mem_create, creates_creation _ t,
    ⟨hbuilt.action_create, hbuilt.sheet_create⟩, .tail (.single hfirst) hsecond⟩

theorem getElem?_orderedTables (ht : schema.table? t.name = some t)
    (hi : (ofSchema settings schema).tables[i]? = some t.name) :
    schema.orderedTables[i]? = some t := by
  rw [tables_ofSchema, List.getElem?_map] at hi
  obtain ⟨u, hu, hname⟩ := Option.map_eq_some_iff.1 hi
  have hfound := Schema.mem_orderedTables.1 (List.mem_of_getElem? hu)
  rw [hname, ht] at hfound
  rw [hu, Option.some.inj hfound]

/-- A way leads from the sheet of a table to the sheet of an earlier source just if the source has a
field. -/
theorem reaches_source_iff (settings : Settings) (ht : schema.table? t.name = some t)
    (hsource : schema.table? source.name = some source) (hnamed : source.name ∈ t.dependsOn)
    (hi : (ofSchema settings schema).tables[i]? = some source.name)
    (hj : (ofSchema settings schema).tables[j]? = some t.name) (hij : i < j) :
    let steps := (ofSchema settings schema).steps
    (∃ u ∈ steps, u.Creates t.name) ∧ (∃ v ∈ steps, v.Creates source.name) ∧
      ∀ u ∈ steps, u.Creates t.name → ∀ v ∈ steps, v.Creates source.name →
        (TransGen (Needs steps) u.id v.id ↔ source.fields ≠ []) := by
  intro steps
  refine ⟨exists_creates settings (List.mem_of_find?_eq_some ht),
    exists_creates settings (List.mem_of_find?_eq_some hsource),
    fun u hu hucreates v hv hvcreates => ⟨?_, ?_⟩⟩
  · intro hpath hnone
    have hne : t.name ≠ source.name := by
      intro hsame
      have hnodup : (ofSchema settings schema).tables.Nodup := by
        rw [tables_ofSchema]
        exact schema.nodup_orderedTables
      have hlt := (List.getElem?_eq_some_iff.1 hi).1
      have heq : i = j := (List.getElem?_inj hlt hnodup).1 (by rw [hi, hj, hsame])
      omega
    have husheet : u.sheet? ≠ some source.name := fun hsame =>
      hne (Option.some.inj (hucreates.sheet.symm.trans hsame))
    exact not_reaches_source hsource hnone (mem_sheetsOf hu (.inl hucreates.action)) husheet hv
      hvcreates.sheet hpath
  · intro hsome
    have hti := getElem?_orderedTables ht hj
    have hsplit : schema.orderedTables = schema.orderedTables.take j ++ t ::
        schema.orderedTables.drop (j + 1) := by
      obtain ⟨hlt, hget⟩ := List.getElem?_eq_some_iff.1 hti
      rw [← hget, ← List.drop_eq_getElem_cons hlt, List.take_append_drop]
    have hdone : source ∈ schema.orderedTables.take j := by
      refine List.mem_of_getElem? (i := i) ?_
      rw [List.getElem?_take_of_lt hij]
      exact getElem?_orderedTables hsource hi
    obtain ⟨u', hu', v', hv', hucreates', hvcreates', hpath⟩ :=
      reaches_source settings hsplit hdone hnamed hsome
    rwa [eq_of_creates hu hu' hucreates hucreates', eq_of_creates hv hv' hvcreates hvcreates']

/-- The source stands behind the table in the schema, and the execution order puts it in front. -/
theorem reaches_source_iff_rates :
    let rates : Table := ⟨"Rates", [⟨"Rate", none, none, none⟩], []⟩
    let orders : Table := ⟨"Orders", [⟨"Total", none, none, none⟩], ["Rates"]⟩
    let schema : Schema := { tables := [orders, rates], executionOrder := ["Rates"] }
    let d := ofSchema {} schema
    (schema.table? "Orders" = some orders ∧ schema.table? "Rates" = some rates ∧
      "Rates" ∈ orders.dependsOn ∧ d.tables[0]? = some "Rates" ∧ d.tables[1]? = some "Orders") ∧
    ∃ u ∈ d.steps, ∃ v ∈ d.steps, u.Creates "Orders" ∧ v.Creates "Rates" ∧
      TransGen (Needs d.steps) u.id v.id := by
  intro rates orders schema d
  have ht : schema.table? orders.name = some orders := by decide +kernel
  have hsource : schema.table? rates.name = some rates := by decide +kernel
  have hnamed : rates.name ∈ orders.dependsOn := by decide
  have hi : d.tables[0]? = some rates.name := by decide +kernel
  have hj : d.tables[1]? = some orders.name := by decide +kernel
  obtain ⟨⟨u, hu, hucreates⟩, ⟨v, hv, hvcreates⟩, hreaches⟩ :=
    reaches_source_iff {} ht hsource hnamed hi hj (by decide)
  have hsome : rates.fields ≠ [] := List.cons_ne_nil _ _
  exact ⟨⟨ht, hsource, hnamed, hi, hj⟩, u, hu, v, hv, hucreates, hvcreates,
    (hreaches u hu hucreates v hv hvcreates).2 hsome⟩

/-- The source has no fields, so its headers own none, and the table waits for nothing. -/
theorem reaches_source_fieldless :
    let rates : Table := ⟨"Rates", [], []⟩
    let orders : Table := ⟨"Orders", [⟨"Total", none, none, none⟩], ["Rates"]⟩
    let schema : Schema := { tables := [rates, orders] }
    let d := ofSchema {} schema
    ("Rates" ∈ orders.dependsOn ∧ d.tables = ["Rates", "Orders"]) ∧
    ∃ u ∈ d.steps, ∃ v ∈ d.steps, u.Creates "Orders" ∧ v.Creates "Rates" ∧
      ¬ TransGen (Needs d.steps) u.id v.id := by
  intro rates orders schema d
  have hlength : d.steps.length = 4 := by decide +kernel
  have hu : d.steps[2] ∈ d.steps := List.getElem_mem _
  have hv : d.steps[0] ∈ d.steps := List.getElem_mem _
  have hucreates : d.steps[2].Creates "Orders" := ⟨by decide +kernel, by decide +kernel⟩
  have hvcreates : d.steps[0].Creates "Rates" := ⟨by decide +kernel, by decide +kernel⟩
  have hne : d.steps[2].sheet? ≠ some "Rates" := by decide +kernel
  have hsource : schema.table? rates.name = some rates := by decide +kernel
  refine ⟨by decide +kernel, _, hu, _, hv, hucreates, hvcreates, ?_⟩
  exact not_reaches_source hsource rfl (mem_sheetsOf hu (.inl hucreates.action)) hne hv
    hvcreates.sheet

end Draft

end WorkbookPlan
