import Mathlib.Data.List.Forall2
import Mathlib.Data.List.ReduceOption
import WorkbookPlan.Proofs.Draft.Formulas
import WorkbookPlan.Proofs.Text.Blank

/-! Who owns the fields of a draft. A field belongs to the formula step of the last entry of the
calculation chain that is for it, and before there is one to the headers of its table. What a formula
step waits for is told by the owners just before it. -/
namespace WorkbookPlan

/-- The token names a field: the name of the table, one exclamation mark and the name of the field,
with blanks around the names or without. -/
def Names (token sheet field : String) : Prop :=
  ∃ a b, token.toList = a ++ '!' :: b ∧ '!' ∉ a ∧ '!' ∉ b ∧
    sheet = String.ofList (Text.trim a) ∧ field = String.ofList (Text.trim b)

theorem splitToken?_eq_some_iff {token sheet field : String} :
    splitToken? token = some (sheet, field) ↔ Names token sheet field := by
  unfold splitToken?
  constructor
  · intro h
    split at h
    · cases h
    · next a b hcut =>
      obtain ⟨htoken, ha⟩ := Text.cutFirst?_eq_some_iff.1 hcut
      split at h
      · cases h
      · next hb =>
        cases h
        exact ⟨a, b, htoken, ha, by simpa using hb, rfl, rfl⟩
  · rintro ⟨a, b, htoken, ha, hb, rfl, rfl⟩
    rw [htoken, Text.cutFirst?_append ha]
    simp [hb]

theorem Owners.ofToken?_eq_some_iff {o : Owners} {token : String} {id : StepId} :
    o.ofToken? token = some id ↔
      ∃ sheet field, Names token sheet field ∧ o.owner? sheet field = some id := by
  simp only [ofToken?, Option.bind_eq_some_iff, Prod.exists, splitToken?_eq_some_iff]

namespace Schema

variable {schema : Schema} {sheet field : String} {j k : Nat} {c : Computation}

/-- The entry at a place of the calculation chain is for the field. -/
def ComputesAt (schema : Schema) (j : Nat) (sheet field : String) : Prop :=
  ∃ c, schema.calculationChain[j]? = some c ∧ (sheet, field) = (c.sheet, c.field)

/-- Of the entries before a place, this one is the last for the field. -/
structure LastFor (schema : Schema) (k : Nat) (sheet field : String) (j : Nat) : Prop where
  lt : j < k
  computes : schema.ComputesAt j sheet field
  last : ∀ m, j < m → m < k → ¬ schema.ComputesAt m sheet field

theorem computesAt_iff (hc : schema.calculationChain[k]? = some c) :
    schema.ComputesAt k sheet field ↔ (sheet, field) = (c.sheet, c.field) := by
  constructor
  · rintro ⟨c', hc', htarget⟩
    obtain rfl := Option.some.inj (hc.symm.trans hc')
    exact htarget
  · exact fun htarget => ⟨c, hc, htarget⟩

theorem exists_computesAt_iff :
    (∃ j < schema.calculationChain.length, schema.ComputesAt j sheet field) ↔
      ∃ c ∈ schema.calculationChain, c.sheet = sheet ∧ c.field = field := by
  constructor
  · rintro ⟨j, -, c, hc, htarget⟩
    obtain ⟨rfl, rfl⟩ := Prod.mk.inj htarget
    exact ⟨c, List.mem_of_getElem? hc, rfl, rfl⟩
  · rintro ⟨c, hc, rfl, rfl⟩
    obtain ⟨j, hj⟩ := List.mem_iff_getElem?.1 hc
    exact ⟨j, (List.getElem?_eq_some_iff.1 hj).1, c, hj, rfl⟩

theorem lastFor_succ_of_computesAt (h : schema.ComputesAt k sheet field) :
    schema.LastFor (k + 1) sheet field j ↔ j = k := by
  constructor
  · intro hj
    by_contra hne
    have hlt := hj.lt
    exact hj.last k (by omega) (Nat.lt_succ_self k) h
  · rintro rfl
    exact ⟨Nat.lt_succ_self j, h, fun m hlt hle => by omega⟩

theorem lastFor_succ_of_not (h : ¬ schema.ComputesAt k sheet field) :
    schema.LastFor (k + 1) sheet field j ↔ schema.LastFor k sheet field j := by
  constructor
  · intro hj
    have hne : j ≠ k := fun heq => h (heq ▸ hj.computes)
    have hlt := hj.lt
    exact ⟨by omega, hj.computes, fun m hjm hmk => hj.last m hjm (by omega)⟩
  · intro hj
    refine ⟨Nat.lt_succ_of_lt hj.lt, hj.computes, fun m hjm hmk => ?_⟩
    rcases Nat.lt_succ_iff_lt_or_eq.1 hmk with hlt | rfl
    · exact hj.last m hjm hlt
    · exact h

end Schema

namespace Draft

/-- The owner of a field before an entry of the calculation chain: the formula step of the last entry
for the field so far, or without one the step that writes the headers of the table, if the first table
of the name has the field. -/
inductive OwnedBefore (schema : Schema) (d : Draft) (k : Nat) (sheet field : String) :
    StepId → Prop where
  | formula {j s} : schema.LastFor k sheet field j → d.formulaSteps[j]? = some s →
      OwnedBefore schema d k sheet field s.id
  | headers {s} : (∀ j < k, ¬ schema.ComputesAt j sheet field) →
      (schema.field? sheet field).isSome → s ∈ d.steps → s.action = Action.writeHeaders →
      s.sheet? = some sheet → OwnedBefore schema d k sheet field s.id

variable {settings : Settings} {schema : Schema} {sheet field : String} {j k : Nat}
  {c : Computation} {id : StepId} {d : Draft}

theorem ownedBefore_zero : OwnedBefore schema d 0 sheet field id ↔
    (schema.field? sheet field).isSome ∧
      ∃ s ∈ d.steps, s.action = Action.writeHeaders ∧ s.sheet? = some sheet ∧ s.id = id := by
  constructor
  · intro h
    cases h with
    | formula hlast => exact absurd hlast.lt (Nat.not_lt_zero _)
    | headers _ hfield hs haction hsheet => exact ⟨hfield, _, hs, haction, hsheet, rfl⟩
  · rintro ⟨hfield, s, hs, haction, hsheet, rfl⟩
    exact .headers (fun j hj => absurd hj (Nat.not_lt_zero j)) hfield hs haction hsheet

theorem ownedBefore_succ_of_computesAt (h : schema.ComputesAt k sheet field) :
    OwnedBefore schema d (k + 1) sheet field id ↔ ∃ s, d.formulaSteps[k]? = some s ∧ s.id = id := by
  constructor
  · intro hid
    cases hid with
    | formula hlast hs =>
      obtain rfl := (Schema.lastFor_succ_of_computesAt h).1 hlast
      exact ⟨_, hs, rfl⟩
    | headers hnone => exact absurd h (hnone k (Nat.lt_succ_self k))
  · rintro ⟨s, hs, rfl⟩
    exact .formula ((Schema.lastFor_succ_of_computesAt h).2 rfl) hs

theorem ownedBefore_succ_of_not (h : ¬ schema.ComputesAt k sheet field) :
    OwnedBefore schema d (k + 1) sheet field id ↔ OwnedBefore schema d k sheet field id := by
  constructor
  · intro hid
    cases hid with
    | formula hlast hs => exact .formula ((Schema.lastFor_succ_of_not h).1 hlast) hs
    | headers hnone hfield hs haction hsheet =>
      exact .headers (fun j hj => hnone j (Nat.lt_succ_of_lt hj)) hfield hs haction hsheet
  · intro hid
    cases hid with
    | formula hlast hs => exact .formula ((Schema.lastFor_succ_of_not h).2 hlast) hs
    | headers hnone hfield hs haction hsheet =>
      refine .headers (fun j hj => ?_) hfield hs haction hsheet
      rcases Nat.lt_succ_iff_lt_or_eq.1 hj with hlt | rfl
      · exact hnone j hlt
      · exact h

/-- A table makes the owner of no fields but its own. -/
theorem exists_of_owner?_withTables {tables : List Table} (d : Draft)
    (h : (tables.foldl withTable d).owners.owner? sheet field = some id) :
    (∃ t ∈ tables, t.name = sheet ∧ field ∈ t.fieldNames) ∨
      d.owners.owner? sheet field = some id := by
  induction tables generalizing d with
  | nil => exact .inr h
  | cons t tables ih =>
    rcases ih _ h with ⟨u, hu, hfound⟩ | hfirst
    · exact .inl ⟨u, List.mem_cons_of_mem _ hu, hfound⟩
    · rw [owners_withTable, Owners.owner?_registerAll] at hfirst
      split at hfirst
      · next hhere => exact .inl ⟨t, List.mem_cons_self, hhere.1.symm, hhere.2⟩
      · exact .inr hfirst

/-- Among the sheets of some tables, the headers of a table own its fields. -/
theorem owner?_withTables_iff (names : List String) {tables : List Table}
    (hnodup : (tables.map (·.name)).Nodup) :
    let d := tables.foldl withTable { tables := names }
    d.owners.owner? sheet field = some id ↔
      ∃ t ∈ tables, t.name = sheet ∧ field ∈ t.fieldNames ∧ ∃ s ∈ d.steps,
        s.action = Action.writeHeaders ∧ s.sheet? = some sheet ∧ s.id = id := by
  intro d
  have hstructured : d.Structured tables := structured_withTables names hnodup
  constructor
  · intro howner
    obtain ⟨t, ht, rfl, hfield⟩ :=
      (exists_of_owner?_withTables _ howner).resolve_right (fun h => nomatch h)
    obtain ⟨create, headers, hbuilt⟩ := hstructured.built t ht
    have hid : headers.id = id := Option.some.inj ((hbuilt.owns field hfield).symm.trans howner)
    exact ⟨t, ht, rfl, hfield, headers, hbuilt.mem_headers, hbuilt.action_headers,
      hbuilt.sheet_headers, hid⟩
  · rintro ⟨t, ht, rfl, hfield, s, hs, haction, hsheet, rfl⟩
    obtain ⟨create, headers, hbuilt⟩ := hstructured.built t ht
    rcases hbuilt.only s hs hsheet with rfl | rfl
    · rw [hbuilt.action_create] at haction
      exact absurd haction (by decide)
    · exact hbuilt.owns field hfield

/-- Before the calculation chain a field that a table has is owned by the headers of the table. -/
theorem owner?_sheetsOf_iff : (sheetsOf schema).owners.owner? sheet field = some id ↔
    (schema.field? sheet field).isSome ∧ ∃ s ∈ (sheetsOf schema).steps,
      s.action = Action.writeHeaders ∧ s.sheet? = some sheet ∧ s.id = id := by
  rw [Schema.isSome_field?_iff]
  refine (owner?_withTables_iff _ schema.nodup_orderedTables).trans ?_
  constructor
  · rintro ⟨t, ht, rfl, hfield, hheaders⟩
    exact ⟨⟨t, Schema.mem_orderedTables.1 ht, hfield⟩, hheaders⟩
  · rintro ⟨⟨t, ht, hfield⟩, hheaders⟩
    obtain rfl := Schema.name_of_table? ht
    exact ⟨t, Schema.mem_orderedTables.2 ht, rfl, hfield, hheaders⟩

/-- Each entry makes its formula step the owner of its field and leaves all other owners alone. -/
theorem owner?_before_iff (settings : Settings) (schema : Schema) (k : Nat)
    (sheet field : String) (id : StepId) :
    (before settings schema k).owners.owner? sheet field = some id ↔
      OwnedBefore schema (ofSchema settings schema) k sheet field id := by
  induction k with
  | zero =>
    rw [ownedBefore_zero, before, List.take_zero, List.foldl_nil, owner?_sheetsOf_iff]
    refine and_congr_right fun _ => exists_congr fun s => ?_
    constructor
    · rintro ⟨hs, hrest⟩
      exact ⟨sheetsOf_subset settings hs, hrest⟩
    · rintro ⟨hs, hrest⟩
      exact ⟨mem_sheetsOf hs (.inr hrest.1), hrest⟩
  | succ k ih =>
    cases hc : schema.calculationChain[k]? with
    | none =>
      have hnone : ¬ schema.ComputesAt k sheet field := by
        rintro ⟨c, hc', -⟩
        rw [hc] at hc'
        cases hc'
      rw [before_succ_of_none settings hc, ih, ownedBefore_succ_of_not hnone]
    | some c =>
      have hstep := getElem?_formulaSteps settings hc
      by_cases htarget : (sheet, field) = (c.sheet, c.field)
      · rw [ownedBefore_succ_of_computesAt ((Schema.computesAt_iff hc).2 htarget), hstep,
          owners_before_succ settings hc]
        obtain ⟨rfl, rfl⟩ := Prod.mk.inj htarget
        simp
      · rw [ownedBefore_succ_of_not (mt (Schema.computesAt_iff hc).1 htarget), ← ih,
          owners_before_succ settings hc, Owners.owner?_register_of_ne htarget]

/-- The fields with an owner are those of tables and those that have been computed. -/
theorem isSome_owner?_before_iff (settings : Settings) (schema : Schema) (k : Nat)
    (sheet field : String) :
    ((before settings schema k).owners.owner? sheet field).isSome ↔
      (schema.field? sheet field).isSome ∨ ∃ j < k, schema.ComputesAt j sheet field := by
  induction k with
  | zero =>
    rw [before, List.take_zero, List.foldl_nil]
    constructor
    · intro h
      obtain ⟨id, howner⟩ := Option.isSome_iff_exists.1 h
      exact .inl (owner?_sheetsOf_iff.1 howner).1
    · rintro (hfield | ⟨j, hj, -⟩)
      · obtain ⟨t, ht, hname⟩ := Schema.isSome_field?_iff.1 hfield
        obtain rfl := Schema.name_of_table? ht
        obtain ⟨create, headers, hbuilt⟩ :=
          (structured_sheetsOf schema).built t (Schema.mem_orderedTables.2 ht)
        exact Option.isSome_of_eq_some (hbuilt.owns field hname)
      · exact absurd hj (Nat.not_lt_zero j)
  | succ k ih =>
    rw [Nat.exists_lt_succ_right, ← or_assoc, ← ih]
    cases hc : schema.calculationChain[k]? with
    | none => simp [before_succ_of_none settings hc, Schema.ComputesAt, hc]
    | some c =>
      rw [owners_before_succ settings hc, Schema.computesAt_iff hc]
      by_cases htarget : (sheet, field) = (c.sheet, c.field)
      · obtain ⟨rfl, rfl⟩ := Prod.mk.inj htarget
        simp
      · rw [Owners.owner?_register_of_ne htarget, or_iff_left htarget]

/-- Nothing behind the calculation chain sets a formula. -/
theorem formulaSteps_ofSchema (settings : Settings) (schema : Schema) :
    (ofSchema settings schema).formulaSteps =
      (before settings schema schema.calculationChain.length).formulaSteps := by
  obtain ⟨rest, hsteps, hrest⟩ := (completes_ofSchema settings schema).steps
  have hnone : rest.filter (·.action == Action.setFormula) = [] := by
    refine List.filter_eq_nil_iff.2 fun s hs => ?_
    rcases hrest s hs with h | h <;>
      · rw [h]
        decide
  rw [formulaSteps, formulaSteps, hsteps, List.filter_append, hnone, List.append_nil]

/-- The step that a token of an entry asks for: the owner, before the entry, of the field that the
token names. -/
def Asked (schema : Schema) (d : Draft) (k : Nat) (token : String) (id : StepId) : Prop :=
  ∃ sheet field, Names token sheet field ∧ OwnedBefore schema d k sheet field id

/-- The fields of created tables and the computed fields have owners, and a formula step waits for
the owners that its tokens name and for the owner so far of its own field. -/
theorem ofSchema_owners (settings : Settings) (schema : Schema) :
    let d := ofSchema settings schema
    let chain := schema.calculationChain
    (∀ sheet field, (d.owners.owner? sheet field).isSome ↔
      (schema.field? sheet field).isSome ∨ ∃ c ∈ chain, c.sheet = sheet ∧ c.field = field) ∧
    (∀ sheet field id, d.owners.owner? sheet field = some id ↔
      OwnedBefore schema d chain.length sheet field id) ∧
    d.formulaSteps.length = chain.length ∧
    ∀ k c, chain[k]? = some c → ∃ s found own, d.formulaSteps[k]? = some s ∧
      List.Forall₂ (fun token id? => ∀ id, id? = some id ↔ Asked schema d k token id)
        c.dependencies found ∧
      (∀ id, own = some id ↔ OwnedBefore schema d k c.sheet c.field id) ∧
      s.dependsOn = found.reduceOption.eraseDups ++
        own.toList.filter (· ∉ found.reduceOption.eraseDups) := by
  intro d chain
  have howners : d.owners = (before settings schema chain.length).owners :=
    (completes_ofSchema settings schema).owners
  have hlength : d.formulaSteps.length = chain.length := by
    rw [formulaSteps_ofSchema, length_formulaSteps_before settings (Nat.le_refl _)]
  refine ⟨fun sheet field => ?_, fun sheet field id => ?_, hlength, fun k c hc => ?_⟩
  · rw [howners, isSome_owner?_before_iff, Schema.exists_computesAt_iff]
  · rw [howners, owner?_before_iff]
  · let o := (before settings schema k).owners
    let found := c.dependencies.map o.ofToken?
    have hasked : List.Forall₂ (fun token id? => ∀ id, id? = some id ↔ Asked schema d k token id)
        c.dependencies found := by
      rw [List.forall₂_map_right_iff, List.forall₂_same]
      intro token _ id
      rw [Owners.ofToken?_eq_some_iff]
      simp only [o, owner?_before_iff, Asked, d]
    have hown : ∀ id, o.owner? c.sheet c.field = some id ↔
        OwnedBefore schema d k c.sheet c.field id := fun id => owner?_before_iff _ _ _ _ _ _
    have hdeps : (formulaAt settings schema k c).dependsOn = found.reduceOption.eraseDups ++
        (o.owner? c.sheet c.field).toList.filter (· ∉ found.reduceOption.eraseDups) := by
      rw [List.reduceOption, List.filterMap_map]
      exact computationDeps_eq _ _
    exact ⟨formulaAt settings schema k c, found, o.owner? c.sheet c.field,
      getElem?_formulaSteps settings hc, hasked, hown, hdeps⟩

end Draft

end WorkbookPlan
