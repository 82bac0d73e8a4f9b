import Mathlib.Data.List.Forall2
import WorkbookPlan.Proofs.Formula.Literal
import WorkbookPlan.Proofs.Verdict.Check

/-! What the check makes of string literals. It sees whether a formula calls a lookup function, which a
literal can spell, and how wide the literals are; besides these it sees nothing of them. -/
namespace WorkbookPlan

/-- The fields are the same but for their formulas, which are related. -/
structure Field.Alike (R : String → String → Prop) (f f' : Field) : Prop where
  rest : { f with formula := none } = { f' with formula := none }
  formula : Option.Rel R f.formula f'.formula

structure Table.Alike (R : String → String → Prop) (t t' : Table) : Prop where
  name : t.name = t'.name
  fields : List.Forall₂ (Field.Alike R) t.fields t'.fields
  dependsOn : t.dependsOn = t'.dependsOn

/-- The schemas are the same but for the formulas of fields, which are related. -/
structure Schema.Alike (R : String → String → Prop) (s s' : Schema) : Prop where
  tables : List.Forall₂ (Table.Alike R) s.tables s'.tables
  executionOrder : s.executionOrder = s'.executionOrder
  calculationChain : s.calculationChain = s'.calculationChain

section Lists

variable {α β γ : Type _} {R : α → β → Prop} {l : List α} {l' : List β}

theorem rel_find? {p : α → Bool} {p' : β → Bool} (hp : ∀ a b, R a b → p a = p' b)
    (h : List.Forall₂ R l l') : Option.Rel R (l.find? p) (l'.find? p') := by
  induction h with
  | nil => exact .none
  | @cons a b l l' hab _ ih =>
    rw [List.find?_cons, List.find?_cons, hp a b hab]
    cases p' b with
    | true => exact .some hab
    | false => exact ih

theorem flatMap_eq_of_forall₂ {f : α → List γ} {g : β → List γ} (hfg : ∀ a b, R a b → f a = g b)
    (h : List.Forall₂ R l l') : l.flatMap f = l'.flatMap g := by
  induction h with
  | nil => rfl
  | cons hab _ ih => rw [List.flatMap_cons, List.flatMap_cons, hfg _ _ hab, ih]

theorem filter_of_forall₂ {p : α → Bool} {p' : β → Bool} (hp : ∀ a b, R a b → p a = p' b)
    (h : List.Forall₂ R l l') : List.Forall₂ R (l.filter p) (l'.filter p') := by
  induction h with
  | nil => exact .nil
  | @cons a b l l' hab _ ih =>
    rw [List.filter_cons, List.filter_cons, hp a b hab]
    cases p' b with
    | true => exact .cons hab ih
    | false => exact ih

theorem map_eq_of_forall₂ {f : α → γ} {g : β → γ} (hfg : ∀ a b, R a b → f a = g b)
    (h : List.Forall₂ R l l') : l.map f = l'.map g := by
  induction h with
  | nil => rfl
  | cons hab _ ih => rw [List.map_cons, List.map_cons, hfg _ _ hab, ih]

theorem isSome_eq_of_rel {o : Option α} {o' : Option β} (h : Option.Rel R o o') :
    o.isSome = o'.isSome := by
  cases h <;> rfl

end Lists

section Alike

variable {R : String → String → Prop} {f f' : Field} {t t' : Table} {s s' : Schema}

theorem Field.Alike.name_eq (h : f.Alike R f') : f.name = f'.name :=
  (Field.mk.inj h.rest).1

theorem Field.Alike.isComputed_eq (h : f.Alike R f') : f.isComputed = f'.isComputed :=
  isSome_eq_of_rel h.formula

namespace Table.Alike

theorem fieldNames_eq (h : t.Alike R t') : t.fieldNames = t'.fieldNames :=
  map_eq_of_forall₂ (fun _ _ hf => hf.name_eq) h.fields

theorem field? (h : t.Alike R t') (name : String) :
    Option.Rel (Field.Alike R) (t.field? name) (t'.field? name) :=
  rel_find? (fun _ _ hf => by rw [hf.name_eq]) h.fields

end Table.Alike

namespace Schema.Alike

theorem table? (h : s.Alike R s') (name : String) :
    Option.Rel (Table.Alike R) (s.table? name) (s'.table? name) :=
  rel_find? (fun _ _ ht => by rw [ht.name]) h.tables

theorem field? (h : s.Alike R s') (table field : String) :
    Option.Rel (Field.Alike R) (s.field? table field) (s'.field? table field) := by
  unfold Schema.field?
  have htable := h.table? table
  revert htable
  generalize s.table? table = found, s'.table? table = found'
  intro htable
  cases htable with
  | none => exact .none
  | some ht => exact ht.field? field

end Schema.Alike

end Alike

namespace Check

variable {R : String → String → Prop} {s s' : Schema} {owners : Owners}

theorem fieldReference_eq (h : s.Alike R s') : fieldReference s owners = fieldReference s' owners := by
  funext source sheet field kind
  have hany : (s.field? sheet field).any (!·.isComputed) =
      (s'.field? sheet field).any (!·.isComputed) := by
    have hfield := h.field? sheet field
    revert hfield
    generalize s.field? sheet field = found, s'.field? sheet field = found'
    intro hfield
    cases hfield with
    | none => rfl
    | some hf => exact congrArg not hf.isComputed_eq
  rw [fieldReference, fieldReference, hany]

theorem tableReference_eq (h : s.Alike R s') : tableReference s owners = tableReference s' owners := by
  funext source sheet kind
  rw [tableReference, tableReference, isSome_eq_of_rel (h.table? sheet)]

theorem explain_eq (h : s.Alike R s') : explain s = explain s' := by
  funext r
  rw [explain, explain]
  have htable := h.table? r.targetSheet
  revert htable
  generalize s.table? r.targetSheet = found, s'.table? r.targetSheet = found'
  intro htable
  cases htable with
  | none => rfl
  | @some t t' ht =>
    simp only
    have hfield := ht.field? r.targetField
    revert hfield
    generalize t.field? r.targetField = found, t'.field? r.targetField = found'
    intro hfield
    cases hfield <;> rfl

theorem chainFindings_eq (h : s.Alike R s') : chainFindings s owners = chainFindings s' owners := by
  have htoken : tokenFinding s owners = tokenFinding s' owners := by
    funext c token
    rw [tokenFinding, tokenFinding, fieldReference_eq h]
  rw [chainFindings, chainFindings, htoken, h.calculationChain]

theorem sourceFindings_eq (h : s.Alike R s') : sourceFindings s owners = sourceFindings s' owners := by
  refine flatMap_eq_of_forall₂ (fun t t' ht => ?_) h.tables
  rw [tableReference_eq h, ht.name, ht.dependsOn]

end Check

namespace Schema

/-- A lookup reads the same out of both texts. -/
structure ReadsAlike (s : Schema) (text text' : List Char) : Prop where
  tables : ∀ t ∈ s.tables, Text.contains t.name.toList text = Text.contains t.name.toList text'
  fields : ∀ t ∈ s.tables, ∀ n ∈ t.fieldNames,
    Text.contains n.toList text = Text.contains n.toList text'
  mentions : Formula.sheetMentions text = Formula.sheetMentions text'

/-- No name of the schema can be taken for the blanks of a literal. -/
def NamesShown (s : Schema) : Prop :=
  ∀ t ∈ s.tables, Formula.Shown t.name.toList ∧ ∀ n ∈ t.fieldNames, Formula.Shown n.toList

instance (s : Schema) : Decidable s.NamesShown :=
  inferInstanceAs (Decidable (∀ t ∈ s.tables,
    Formula.Shown t.name.toList ∧ ∀ n ∈ t.fieldNames, Formula.Shown n.toList))

/-- The formulas differ in the bodies of literals only, and the schema does not tell them apart: both
call lookup functions or none does, and if so, the bodies keep their lengths, or no name of the schema
can be taken for blanks and no sheet that the formula mentions has a literal in its name. -/
structure Conceals (s : Schema) (f f' : String) : Prop where
  outside : Formula.SameOutside (fun _ _ => True) f.toList f'.toList
  isLookup_eq : Formula.isLookup f = Formula.isLookup f'
  widths : Formula.isLookup f = true →
    Formula.SameOutside (fun b b' => b.length = b'.length) f.toList f'.toList ∨
      s.NamesShown ∧
        ∀ m ∈ Formula.sheetMentions (Formula.blankLiterals f.toList), '\x22' ∉ m.1.toList

theorem Conceals.readsAlike {s : Schema} {f f' : String} (h : s.Conceals f f')
    (hlookup : Formula.isLookup f = true) :
    s.ReadsAlike (Formula.blankLiterals f.toList) (Formula.blankLiterals f'.toList) := by
  rcases h.widths hlookup with hlength | ⟨hnames, hmentions⟩
  · rw [hlength.blankLiterals_eq]
    exact ⟨fun _ _ => rfl, fun _ _ _ _ => rfl, rfl⟩
  · have hstretched := h.outside.stretched.1
    exact ⟨fun t ht => hstretched.contains_eq (hnames t ht).1,
      fun t ht n hn => hstretched.contains_eq ((hnames t ht).2 n hn),
      hstretched.sheetMentions_eq hmentions⟩

end Schema

namespace Check

variable {R : String → String → Prop} {s s' : Schema} {owners : Owners}

theorem lookupReferences_eq (h : s.Alike R s') {own own' : Table} (hown : own.name = own'.name)
    (field : String) {f f' : String}
    (hreads : s.ReadsAlike (Formula.blankLiterals f.toList) (Formula.blankLiterals f'.toList)) :
    lookupReferences s owners own field f = lookupReferences s' owners own' field f' := by
  have htables : List.Forall₂ (fun t t' => t ∈ s.tables ∧ t.Alike R t') s.tables s'.tables :=
    (List.forall₂_and_left _ _).2 ⟨fun _ h => h, h.tables⟩
  have hnamed : List.Forall₂ (fun t t' => t ∈ s.tables ∧ t.Alike R t')
      (s.tables.filter fun t => t.name != own'.name &&
        Text.contains t.name.toList (Formula.blankLiterals f.toList))
      (s'.tables.filter fun t => t.name != own'.name &&
        Text.contains t.name.toList (Formula.blankLiterals f'.toList)) :=
    filter_of_forall₂ (fun t t' ht => by rw [hreads.tables t ht.1, ht.2.name]) htables
  unfold lookupReferences
  simp only
  rw [hreads.mentions, hown, tableReference_eq h, fieldReference_eq h]
  congr 1
  · refine flatMap_eq_of_forall₂ (fun t t' ht => ?_) hnamed
    have hfields : (t.fieldNames.filter fun n =>
          Text.contains n.toList (Formula.blankLiterals f.toList)) =
        t'.fieldNames.filter fun n =>
          Text.contains n.toList (Formula.blankLiterals f'.toList) := by
      rw [← ht.2.fieldNames_eq]
      exact List.filter_congr fun n hn => hreads.fields t ht.1 n hn
    rw [hfields, ht.2.name]
  · have htable : ∀ sheet, (s.table? sheet).isNone = (s'.table? sheet).isNone := by
      intro sheet
      rw [← Option.not_isSome, ← Option.not_isSome, isSome_eq_of_rel (h.table? sheet)]
    simp only [htable]

theorem lookupFindings_eq (h : s.Alike s.Conceals s') :
    lookupFindings s owners = lookupFindings s' owners := by
  refine flatMap_eq_of_forall₂ (fun t t' ht => ?_) h.tables
  refine flatMap_eq_of_forall₂ (fun f f' hf => ?_) ht.fields
  have hformula := hf.formula
  revert hformula
  generalize f.formula = formula, f'.formula = formula'
  intro hformula
  cases hformula with
  | none => rfl
  | @some formula formula' hconceals =>
    simp only
    rw [← hconceals.isLookup_eq, ← hf.name_eq]
    split
    · next hlookup =>
      rw [lookupReferences_eq h ht.name f.name (hconceals.readsAlike hlookup)]
    · rfl

theorem findings_eq (h : s.Alike s.Conceals s') : findings s owners = findings s' owners := by
  rw [findings, findings, chainFindings_eq h, lookupFindings_eq h, sourceFindings_eq h]

/-- Literal bodies have no part in the verdict, as far as the schema conceals them. -/
theorem run_literals (steps : List Step) (owners : Owners) (review : Option SchemaReview)
    {s s' : Schema} (h : s.Alike s.Conceals s') :
    run steps (some s) owners review = run steps (some s') owners review := by
  rw [run_eq, run_eq]
  have hwarning : Finding.warning? s = Finding.warning? s' := by
    funext finding
    cases finding with
    | malformed => rfl
    | reference r => rw [Finding.warning?, Finding.warning?, explain_eq h]
  simp only [Option.elim_some, findings_eq h, hwarning]

/-- A formula that ends in a literal. -/
def quoting (lead body : String) : String :=
  String.ofList (lead.toList ++ '\x22' :: (body.toList ++ ['\x22']))

/-- A table with such a formula, beside another table. -/
def quotingIn (other lead body : String) : Schema where
  tables := [{ name := "Orders", fields := [{ name := "note", formula := some (quoting lead body) }] },
    { name := other, fields := [{ name := "price" }] }]

theorem sameOutside_quoting {P : List Char → List Char → Prop} {lead body body' : String}
    (hlead : '\x22' ∉ lead.toList) (hbody : '\x22' ∉ body.toList) (hbody' : '\x22' ∉ body'.toList)
    (hP : P body.toList body'.toList) :
    Formula.SameOutside P (quoting lead body).toList (quoting lead body').toList := by
  rw [quoting, quoting, String.toList_ofList, String.toList_ofList]
  exact .append hlead (.literal hbody hbody' hP .nil)

theorem alike_quotingIn {R : String → String → Prop} {lead body body' : String} (other : String)
    (h : R (quoting lead body) (quoting lead body')) :
    (quotingIn other lead body).Alike R (quotingIn other lead body') where
  tables := .cons ⟨rfl, .cons ⟨rfl, .some h⟩ .nil, rfl⟩ (.cons ⟨rfl, .cons ⟨rfl, .none⟩ .nil, rfl⟩ .nil)
  executionOrder := rfl
  calculationChain := rfl

/-- A literal that spells a call makes a lookup of a formula without one, and in a lookup the width
of a literal can be taken for the name of a table. -/
theorem run_literals_spelt :
    (∃ s s' : Schema,
      s.Alike (fun f f' => Formula.SameOutside (fun _ _ => True) f.toList f'.toList) s' ∧
        (run [] (some s) .empty none).passed = false ∧
        (run [] (some s') .empty none).passed = true) ∧
    ∃ s s' : Schema,
      s.Alike (fun f f' => Formula.SameOutside (fun _ _ => True) f.toList f'.toList ∧
        Formula.isLookup f = Formula.isLookup f') s' ∧
      run [] (some s) .empty none ≠ run [] (some s') .empty none := by
  constructor
  · let called := quotingIn "Stock" "=Ghost!A&" "VLOOKUP("
    let plain := quotingIn "Stock" "=Ghost!A&" "x"
    have hcalled : (run [] (some called) .empty none).passed = false := by decide +kernel
    have hplain : (run [] (some plain) .empty none).passed = true := by decide +kernel
    refine ⟨called, plain, ?_, hcalled, hplain⟩
    exact alike_quotingIn "Stock" (sameOutside_quoting (by decide) (by decide) (by decide) trivial)
  · let wide := quotingIn " " "=VLOOKUP(A1)&" "x"
    let narrow := quotingIn " " "=VLOOKUP(A1)&" ""
    have hdiffer : run [] (some wide) .empty none ≠ run [] (some narrow) .empty none := by
      decide +kernel
    refine ⟨wide, narrow, ?_, hdiffer⟩
    refine alike_quotingIn " " ⟨sameOutside_quoting (by decide) (by decide) (by decide) trivial, ?_⟩
    decide +kernel

/-- A message may name a table and a sheet that is not there. -/
theorem run_literals_message :
    let s := quotingIn "Stock" "=VLOOKUP(A1,Stock!B:C,2)&" "none"
    let s' := quotingIn "Stock" "=VLOOKUP(A1,Stock!B:C,2)&" "no price of Ghost!A in 'Old Stock'!"
    s.Alike s.Conceals s' ∧ run [] (some s) .empty none = run [] (some s') .empty none := by
  intro s s'
  have hquiet : ∀ body ∈ ["none", "no price of Ghost!A in 'Old Stock'!"],
      Formula.Quiet body.toList := by
    decide +kernel
  have halike : s.Alike s.Conceals s' := by
    refine alike_quotingIn "Stock" ⟨?_, ?_, fun _ => .inr ⟨?_, ?_⟩⟩
    · exact sameOutside_quoting (by decide) (by decide) (by decide) trivial
    · refine Formula.isLookup_eq (sameOutside_quoting (by decide) (by decide) (by decide) ?_)
      exact ⟨hquiet _ (by decide), hquiet _ (by decide)⟩
    · decide +kernel
    · decide +kernel
  exact ⟨halike, run_literals [] .empty none halike⟩

end Check

end WorkbookPlan
