import WorkbookPlan.Proofs.Draft.Formulas

/-! The last parts of a draft, and with them all kinds of steps that a draft consists of. The rules
of fields stand in the order of tables and fields, each for a column of its own. -/
namespace WorkbookPlan

/-- A rule, with its field, the place of the field, and the table. -/
structure RuleSite where
  table : Table
  field : Field
  place : Nat
  rule : FieldRule

def Table.sites (t : Table) : List RuleSite :=
  t.fields.zipIdx.filterMap fun (f, i) => f.rule.map (⟨t, f, i, ·⟩)

theorem Table.mem_sites {t : Table} {x : RuleSite} (h : x ∈ t.sites) :
    x.table = t ∧ t.fields[x.place]? = some x.field := by
  obtain ⟨⟨f, i⟩, hf, hx⟩ := List.mem_filterMap.1 h
  obtain ⟨rule, -, rfl⟩ := Option.map_eq_some_iff.1 hx
  exact ⟨rfl, List.mem_zipIdx_iff_getElem?.1 hf⟩

theorem Table.pairwise_sites (t : Table) : t.sites.Pairwise fun x y => x.place ≠ y.place := by
  refine List.pairwise_filterMap.2 ?_
  have hplaces : t.fields.zipIdx.Pairwise fun a b => a.2 ≠ b.2 := by
    rw [← List.pairwise_map (f := Prod.snd), List.zipIdx_map_snd]
    exact List.nodup_range'
  refine hplaces.imp fun {a b} hne x hx y hy => ?_
  obtain ⟨_, -, rfl⟩ := Option.map_eq_some_iff.1 hx
  obtain ⟨_, -, rfl⟩ := Option.map_eq_some_iff.1 hy
  exact hne

namespace Schema

def sites (s : Schema) : List RuleSite :=
  s.orderedTables.flatMap Table.sites

theorem mem_sites {s : Schema} {x : RuleSite} (h : x ∈ s.sites) :
    x.table ∈ s.orderedTables ∧ x.table.fields[x.place]? = some x.field := by
  obtain ⟨t, ht, hx⟩ := List.mem_flatMap.1 h
  obtain ⟨rfl, hfield⟩ := Table.mem_sites hx
  exact ⟨ht, hfield⟩

/-- No two rules are for the same column of a table. -/
theorem pairwise_sites (s : Schema) :
    s.sites.Pairwise fun x y => x.table.name = y.table.name → x.place ≠ y.place := by
  refine List.pairwise_flatMap.2 ⟨fun t _ => ?_, ?_⟩
  · exact t.pairwise_sites.imp fun {x y} hne (_ : x.table.name = y.table.name) => hne
  · refine (List.pairwise_map.1 s.nodup_orderedTables).imp fun hne x hx y hy hsame => ?_
    obtain ⟨rfl, -⟩ := Table.mem_sites hx
    obtain ⟨rfl, -⟩ := Table.mem_sites hy
    exact absurd hsame hne

end Schema

namespace Draft

variable {settings : Settings} {schema : Schema}

/-- The step of a rule, when the fields have these owners. -/
def ruleStep (o : Owners) (x : RuleSite) (order : Nat) : Step :=
  addValidation order x.table x.field x.rule (Sheet.Column.name x.place)
    (o.owner? x.table.name x.field.name).toList

def withSite (d : Draft) (x : RuleSite) : Draft :=
  { d with steps := d.steps ++ [ruleStep d.owners x d.nextOrder] }

theorem withRules_eq (d : Draft) (t : Table) : d.withRules t = t.sites.foldl withSite d := by
  rw [withRules, Table.sites, List.foldl_filterMap]
  congr 1
  funext d f
  cases hrule : f.1.rule with
  | none => simp [withRule, hrule]
  | some rule => simp [withRule, hrule, withSite, ruleStep]

theorem steps_foldl_withSite (d : Draft) (sites : List RuleSite) :
    (sites.foldl withSite d).steps =
      d.steps ++ (sites.zipIdx d.nextOrder).map fun x => ruleStep d.owners x.1 x.2 := by
  induction sites generalizing d with
  | nil => simp
  | cons x sites ih =>
    have hnext : (d.withSite x).nextOrder = d.nextOrder + 1 := by simp [withSite, nextOrder]
    rw [List.foldl_cons, ih, hnext, List.zipIdx_cons, List.map_cons]
    simp [withSite]

def ruleSteps (settings : Settings) (schema : Schema) : List Step :=
  let d := before settings schema schema.calculationChain.length
  (schema.sites.zipIdx d.nextOrder).map fun x => ruleStep d.owners x.1 x.2

/-- A draft is the part with the formulas, then the rules, then the verification. -/
theorem ofSchema_eq (settings : Settings) (schema : Schema) : ofSchema settings schema =
    (schema.sites.foldl withSite
      (before settings schema schema.calculationChain.length)).withVerification settings := by
  have hrules (d : Draft) : schema.orderedTables.foldl withRules d =
      schema.sites.foldl withSite d := by
    rw [Schema.sites, List.foldl_flatMap]
    congr 1
    funext d t
    exact withRules_eq d t
  rw [← hrules, before, List.take_length]
  rfl

theorem steps_withVerification (settings : Settings) (d : Draft) :
    (d.withVerification settings).steps = d.steps ++
      if d.formulaSteps = [] then [] else [verifyResults settings d.nextOrder d.formulaSteps] := by
  unfold withVerification
  cases hformulas : d.formulaSteps with
  | nil => simp
  | cons s rest => simp

/-- The steps of a draft, part by part. -/
theorem steps_ofSchema (settings : Settings) (schema : Schema) :
    ∃ last, (ofSchema settings schema).steps =
      (before settings schema schema.calculationChain.length).steps ++
        ruleSteps settings schema ++ last ∧
      ∀ s ∈ last, ∃ order formulas, s = verifyResults settings order formulas := by
  rw [ofSchema_eq, steps_withVerification, steps_foldl_withSite]
  refine ⟨_, rfl, fun s hs => ?_⟩
  split at hs
  · cases hs
  · exact ⟨_, _, List.mem_singleton.1 hs⟩

theorem exists_of_mem_sheetsOf {s : Step} (hs : s ∈ (sheetsOf schema).steps) :
    ∃ t ∈ schema.orderedTables, ∃ d : Draft, s = d.creation t ∨ s = d.heading t := by
  obtain ⟨done, t, rest, hsplit, hnew⟩ :=
    (exists_stage_of_mem _ hs).resolve_left fun h => nomatch h
  exact ⟨t, hsplit ▸ List.mem_append_right _ List.mem_cons_self, _, hnew⟩

/-- The kinds of steps that a draft consists of. -/
inductive Drafted (settings : Settings) (schema : Schema) : Step → Prop where
  | creation {t} (d : Draft) : t ∈ schema.orderedTables → d.creation t ∈ (sheetsOf schema).steps →
      Drafted settings schema (d.creation t)
  | heading {t} (d : Draft) : t ∈ schema.orderedTables → d.heading t ∈ (sheetsOf schema).steps →
      Drafted settings schema (d.heading t)
  | formula {k c} : schema.calculationChain[k]? = some c →
      Drafted settings schema (formulaAt settings schema k c)
  | rule {x order} : x ∈ schema.sites →
      ruleStep (ofSchema settings schema).owners x order ∈ ruleSteps settings schema →
      Drafted settings schema (ruleStep (ofSchema settings schema).owners x order)
  | verification (order : Nat) (formulas : List Step) :
      Drafted settings schema (verifyResults settings order formulas)

theorem drafted_of_mem {s : Step} (hs : s ∈ (ofSchema settings schema).steps) :
    Drafted settings schema s := by
  obtain ⟨last, hsteps, hlast⟩ := steps_ofSchema settings schema
  rw [hsteps] at hs
  rcases List.mem_append.1 hs with hs | hs
  · rcases List.mem_append.1 hs with hs | hs
    · rcases exists_of_mem_before hs with hs | ⟨k, c, hc, rfl⟩
      · obtain ⟨t, ht, d, rfl | rfl⟩ := exists_of_mem_sheetsOf hs
        · exact .creation d ht hs
        · exact .heading d ht hs
      · exact .formula hc
    · obtain ⟨⟨x, order⟩, hx, rfl⟩ := List.mem_map.1 hs
      have howners := (completes_ofSchema settings schema).owners
      rw [← howners] at hs ⊢
      exact .rule (List.fst_mem_of_mem_zipIdx hx) hs
  · obtain ⟨order, formulas, rfl⟩ := hlast s hs
    exact .verification order formulas

end Draft

end WorkbookPlan
