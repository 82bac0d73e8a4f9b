import WorkbookPlan.Proofs.Draft.Formulas
import WorkbookPlan.Proofs.Run.Moments
import WorkbookPlan.Proofs.Verdict.Check

/-! From the calculation chain to the run. If the chain has those that others need first, what a
formula step finds at its turn is done: the steps that the check names for its tokens, and the sheet
of its table. -/
namespace WorkbookPlan

open Relation Step

def Computation.Awaits (c other : Computation) : Prop :=
  ∃ token ∈ c.dependencies, splitToken? token = some (other.sheet, other.field)

instance (c other : Computation) : Decidable (c.Awaits other) :=
  inferInstanceAs (Decidable (∃ token ∈ c.dependencies, _))

/-- No entry of the calculation chain waits for itself or for a later one. -/
def Schema.DependencyFirst (schema : Schema) : Prop :=
  (∀ c ∈ schema.calculationChain, ¬ c.Awaits c) ∧
    schema.calculationChain.Pairwise fun c later => ¬ c.Awaits later

instance (schema : Schema) : Decidable schema.DependencyFirst :=
  inferInstanceAs (Decidable (_ ∧ _))

theorem Schema.DependencyFirst.not_awaits {schema : Schema} (h : schema.DependencyFirst) {k : Nat}
    {c : Computation} (hc : schema.calculationChain[k]? = some c) :
    ∀ later ∈ schema.calculationChain.drop k, ¬ c.Awaits later := by
  obtain ⟨hself, hlater⟩ := h
  have hdrop : schema.calculationChain.drop k = c :: schema.calculationChain.drop (k + 1) := by
    obtain ⟨hlt, rfl⟩ := List.getElem?_eq_some_iff.1 hc
    exact List.drop_eq_getElem_cons hlt
  have hrest := hlater.sublist (List.drop_sublist k _)
  rw [hdrop] at hrest ⊢
  intro later hmem
  rcases List.mem_cons.1 hmem with rfl | hmem
  · exact hself later (List.mem_of_getElem? hc)
  · exact (List.pairwise_cons.1 hrest).1 later hmem

namespace Draft

variable {schema : Schema} {k : Nat} {c : Computation}

/-- The formula step waits for the step that owns, in the end, what its token names. -/
theorem mem_dependsOn_formulaAt (settings : Settings) (hfirst : schema.DependencyFirst)
    (hc : schema.calculationChain[k]? = some c) {token : String} (htoken : token ∈ c.dependencies)
    {id : StepId} (howner : (ofSchema settings schema).owners.ofToken? token = some id) :
    id ∈ (formulaAt settings schema k c).dependsOn := by
  obtain ⟨⟨sheet, field⟩, hsplit, howner⟩ := Option.bind_eq_some_iff.1 howner
  have hlater : ∀ later ∈ schema.calculationChain.drop k,
      (sheet, field) ≠ (later.sheet, later.field) := fun later hmem hsame =>
    hfirst.not_awaits hc later hmem ⟨token, htoken, hsplit.trans (congrArg some hsame)⟩
  have hsame : (ofSchema settings schema).owners.owner? sheet field =
      (before settings schema k).owners.owner? sheet field := owner?_ofSchema hlater
  have hthen : (before settings schema k).owners.ofToken? token = some id := by
    rw [Owners.ofToken?, hsplit]
    exact hsame.symm.trans howner
  exact mem_computationDeps.2 (.inl
    (List.mem_eraseDups.2 (List.mem_filterMap.2 ⟨token, htoken, hthen⟩)))

theorem pending_ofSchema (settings : Settings) (schema : Schema) :
    ∀ s ∈ (ofSchema settings schema).steps, s.status = .pending := by
  intro s hs
  obtain ⟨_, hcontinues⟩ := (sound_ofSchema settings schema).ordered.exists_continues hs
  exact hcontinues.pending

/-- The names of a draft do not begin as those of a repair do. -/
theorem tidy_of_ordered {p : Plan} (h : Ordered p.steps) (tokens : Nat → String) :
    p.Tidy tokens where
  distinct := h.nodup_ids
  fresh id hid hminted := by
    obtain ⟨s, hs, rfl⟩ := List.mem_map.1 hid
    obtain ⟨_, hcontinues⟩ := h.exists_continues hs
    obtain ⟨rest, hrest⟩ := hcontinues.id
    have hhead := hminted.head?
    rw [hrest, List.head?_cons] at hhead
    exact absurd hhead (by decide)

theorem tidy_ofSchema (settings : Settings) (schema : Schema) (tokens : Nat → String)
    (task taskKind : String) :
    (Plan.ofSteps task taskKind (ofSchema settings schema).steps).Tidy tokens :=
  tidy_of_ordered (sound_ofSchema settings schema).ordered tokens

end Draft

namespace Plan

variable {σ : Type _} {settings : Settings} {tokens : Nat → String} {execute : Executor σ}
  {spare : Nat} {kept : σ} {task taskKind : String} {steps : List Step}

/-- A step is handed out of a plan that has grown out of the first one, with all work earned. -/
theorem handover_earned (ht : (ofSteps task taskKind steps).Tidy tokens) {h : Plan × Step}
    (hh : h ∈ (ofSteps task taskKind steps).handovers settings tokens execute spare kept) :
    h.1.nextReady? = some h.2 ∧ h.1.ids.Nodup ∧
      Grows ((ofSteps task taskKind steps).opened kept).plan h.1 ∧
      h.1.Earned ((steps.filter (!·.isPending)).map (·.id)) := by
  have hopened : ((ofSteps task taskKind steps).opened kept).plan.Tidy tokens := tidy_opened ht
  obtain ⟨q, hq, hh⟩ := List.mem_filterMap.1 hh
  obtain ⟨hplan, hready⟩ := Run.handover?_eq_some hh
  rw [starts_eq rfl] at hq
  have hagain := Run.mem_starts hq
  have hreach := Run.reaches_of_again hagain hopened
  have htidy := Reaches.tidy hreach hopened
  have hway : Reaches settings tokens _ q.skipDoomed.plan :=
    hreach.trans (Run.skipDoomed_reaches settings tokens q htidy.distinct)
  have hsteady := (steady_opened kept task taskKind steps).of_again hopened hagain
  rw [hplan]
  exact ⟨hplan ▸ hready, (hway.tidy hopened).distinct, (hway.evolves hopened).toGrows,
    (hsteady.skipDoomed htidy.distinct).earned⟩

/-- What a step needs, directly or through others, is satisfied when the step is handed out. -/
theorem satisfied_of_needs (hpending : ∀ s ∈ steps, s.status = .pending)
    (ht : (ofSteps task taskKind steps).Tidy tokens) {h : Plan × Step}
    (hh : h ∈ (ofSteps task taskKind steps).handovers settings tokens execute spare kept)
    {id : StepId} (hneeds : TransGen (Needs steps) h.2.id id) :
    h.1.dependencyState id = .satisfied := by
  obtain ⟨hready, hdistinct, hgrows, hearned⟩ := handover_earned ht hh
  have hold : (steps.filter (!·.isPending)).map (·.id) = [] := by
    refine List.map_eq_nil_iff.2 (List.filter_eq_nil_iff.2 fun s hs => ?_)
    simp [isPending, hpending s hs]
  rw [hold] at hearned
  have hkept : ∀ {a b}, Needs steps a b → ∃ t, h.1.step? a = some t ∧ b ∈ t.dependsOn := by
    rintro _ b ⟨u, hu, rfl, hb⟩
    obtain ⟨t, ht, hdeps, -⟩ := hgrows.step (step?_of_mem ht.distinct hu)
    exact ⟨t, ht, hdeps ▸ hb⟩
  induction hneeds with
  | single hneeds =>
    obtain ⟨t, ht, hb⟩ := hkept hneeds
    obtain ⟨hmem, -, hdeps⟩ := nextReady?_eq_some hready
    obtain rfl := Option.some.inj ((step?_of_mem hdistinct hmem).symm.trans ht)
    exact isReady_iff.1 hdeps _ hb
  | tail _ hneeds ih =>
    obtain ⟨t, ht, hb⟩ := hkept hneeds
    exact hearned.satisfied_of_dependsOn ht List.not_mem_nil ih hb

/-- If the calculation chain has those first that others need, a formula step is handed out only
when the fields it needs are there. -/
theorem run_respects_chain (settings : Settings) (schema : Schema)
    (hfirst : schema.DependencyFirst) (review : Option SchemaReview) {k : Nat} {c : Computation}
    (hc : schema.calculationChain[k]? = some c) (config : Settings) (tokens : Nat → String)
    (execute : Executor σ) (spare : Nat) (kept : σ) (task taskKind : String) :
    let g := Draft.ofSchema settings schema
    let v := Check.run g.steps (some schema) g.owners review
    let p := ofSteps task taskKind g.steps
    ∃ s r, g.formulaSteps[k]? = some s ∧ p.run config tokens execute spare kept = some (.ok r) ∧
      p.run config tokens execute.recording spare (kept, []) = some (.ok (r.withCalls
        ((p.handovers config tokens execute spare kept).map (·.2)))) ∧
      (∀ token ∈ c.dependencies, ∀ id, v.Resolves c token id → id ∈ s.dependsOn ∧
        ∀ h ∈ p.handovers config tokens execute spare kept, h.2.id = s.id →
          h.1.dependencyState id = .satisfied) ∧
      ((schema.field? c.sheet c.field).isSome →
        (∃ u ∈ g.steps, u.action = Action.createSheet ∧ u.sheet? = some c.sheet) ∧
        (∃ u ∈ g.steps, u.action = Action.writeHeaders ∧ u.sheet? = some c.sheet) ∧
        ∀ u ∈ g.steps, u.SetsUp c.sheet →
          ∀ h ∈ p.handovers config tokens execute spare kept, h.2.id = s.id →
            h.1.dependencyState u.id = .satisfied) := by
  intro g v p
  have hmem : c ∈ schema.calculationChain := List.mem_of_getElem? hc
  have hsteps := Draft.formulaAt_mem settings hc
  have htidy : p.Tidy tokens := Draft.tidy_ofSchema settings schema tokens task taskKind
  have hpending := Draft.pending_ofSchema settings schema
  obtain ⟨-, r, -, -, hrun⟩ := run_ends config execute spare kept (p := p) rfl htidy
  refine ⟨_, r, Draft.getElem?_formulaSteps settings hc, hrun, run_recording rfl hrun, ?_, ?_⟩
  · intro token htoken id hresolves
    have howner : g.owners.ofToken? token = some id :=
      (Check.resolves_iff hmem htoken).1 hresolves
    have hwaits := Draft.mem_dependsOn_formulaAt settings hfirst hc htoken howner
    refine ⟨hwaits, fun h hh hid => satisfied_of_needs hpending htidy hh ?_⟩
    exact .single ⟨_, hsteps, hid.symm, hwaits⟩
  · intro hfield
    obtain ⟨hcreate, hheaders, hpath⟩ := Draft.reaches_sheet settings hc hfield
    refine ⟨hcreate, hheaders, fun u hu hset h hh hid => ?_⟩
    exact satisfied_of_needs hpending htidy hh (hid ▸ hpath u hu hset)

/-- Two formulas of one table: the second waits for the first, which has the third step. -/
theorem run_respects_chain_orders :
    let amount : Computation :=
      { sheet := "Orders", field := "Amount", formula := "=Price*2"
        dependencies := ["Orders!Price"] }
    let total : Computation :=
      { sheet := "Orders", field := "Total", formula := "=Amount+1"
        dependencies := [" Orders ! Amount"] }
    let schema : Schema :=
      { tables := [⟨"Orders", [⟨"Price", none, none, none⟩, ⟨"Amount", none, none, none⟩,
          ⟨"Total", none, none, none⟩], []⟩]
        calculationChain := [amount, total] }
    let p := ofSteps "" "" (Draft.ofSchema {} schema).steps
    (schema.DependencyFirst ∧ schema.calculationChain[1]? = some total ∧
      (schema.field? "Orders" "Total").isSome) ∧
      ∃ s, (Draft.ofSchema {} schema).formulaSteps[1]? = some s ∧
        "s3_set_formula_Orders_Amount" ∈ s.dependsOn ∧
        ∀ h ∈ p.handovers {} (fun _ => "t") (fun _ (_ : Unit) => (.ok .null, ())) 0 (),
          h.2.id = s.id →
          h.1.dependencyState "s3_set_formula_Orders_Amount" = .satisfied ∧
          ∀ u ∈ p.steps, u.SetsUp "Orders" → h.1.dependencyState u.id = .satisfied := by
  intro amount total schema p
  have hfirst : schema.DependencyFirst := by decide +kernel
  have hfield : (schema.field? "Orders" "Total").isSome := by decide +kernel
  obtain ⟨s, r, hs, -, -, htokens, hsheet⟩ := run_respects_chain {} schema hfirst none
    (k := 1) (c := total) rfl {} (fun _ => "t") (fun _ (_ : Unit) => (.ok .null, ())) 0 () "" ""
  have howner : (Draft.ofSchema {} schema).owners.ofToken? " Orders ! Amount" =
      some "s3_set_formula_Orders_Amount" := by decide +kernel
  have htoken : " Orders ! Amount" ∈ total.dependencies := List.mem_cons_self
  have hresolves : (Check.run (Draft.ofSchema {} schema).steps (some schema)
      (Draft.ofSchema {} schema).owners none).Resolves total " Orders ! Amount"
        "s3_set_formula_Orders_Amount" :=
    (Check.resolves_iff (List.mem_cons_of_mem _ List.mem_cons_self) htoken).2 howner
  obtain ⟨hwaits, hdone⟩ := htokens _ htoken _ hresolves
  obtain ⟨-, -, hset⟩ := hsheet hfield
  exact ⟨⟨hfirst, rfl, hfield⟩, s, hs, hwaits, fun h hh hid =>
    ⟨hdone h hh hid, fun u hu hopens => hset u hu hopens h hh hid⟩⟩

end Plan

end WorkbookPlan
