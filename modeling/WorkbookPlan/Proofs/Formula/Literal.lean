import Mathlib.Data.List.Infix
import WorkbookPlan.Formula.Lookup
import WorkbookPlan.Formula.SheetMention

/-! Formulas that differ in the bodies of their string literals only. Blanking leaves of a body nothing
but its width, which neither a name nor a sheet in front of an exclamation mark can show. -/
namespace WorkbookPlan

namespace Text

variable {q : Char} {name a b : List Char}

theorem contains_iff_occurs {part text : List Char} : contains part text = true ↔ part <:+: text := by
  rw [contains_iff]
  constructor
  · rintro ⟨before, after, rfl⟩
    exact ⟨before, after, rfl⟩
  · rintro ⟨before, after, rfl⟩
    exact ⟨before, after, rfl⟩

theorem contains_eq {part part' text text' : List Char} (h : part <:+: text ↔ part' <:+: text') :
    contains part text = contains part' text' := by
  rw [Bool.eq_iff_iff, contains_iff_occurs, contains_iff_occurs]
  exact h

theorem starts_of_notMem (hq : q ∉ name) (h : name <+: a ++ q :: b) : name <+: a := by
  induction name generalizing a with
  | nil => exact List.nil_prefix
  | cons x name ih =>
    have hname := List.not_mem_of_not_mem_cons hq
    cases a with
    | nil => exact absurd (List.cons_prefix_cons.1 h).1.symm (List.ne_of_not_mem_cons hq)
    | cons y a =>
      obtain ⟨rfl, hrest⟩ := List.cons_prefix_cons.1 h
      exact List.cons_prefix_cons.2 ⟨rfl, ih hname hrest⟩

/-- What does not hold a character is found on one side of it. -/
theorem occurs_left_or_right (hq : q ∉ name) (h : name <:+: a ++ q :: b) :
    name <:+: a ∨ name <:+: b := by
  induction a with
  | nil =>
    rcases List.infix_cons_iff.1 h with h | h
    · exact .inl (starts_of_notMem (a := []) hq h).isInfix
    · exact .inr h
  | cons x a ih =>
    rcases List.infix_cons_iff.1 h with h | h
    · exact .inl (starts_of_notMem (a := x :: a) hq h).isInfix
    · exact (ih h).imp_left List.infix_cons

theorem eq_quote_of_mem_latinCapital {c : Char} (h : '\x22' ∈ latinCapital c) : c = '\x22' := by
  unfold latinCapital at h
  split at h
  case h_18 => exact eq_of_toUpper (List.mem_singleton.1 h).symm (by decide)
  all_goals exact absurd h (by decide)

theorem quote_notMem_upper {cs : List Char} (h : '\x22' ∉ cs) : '\x22' ∉ upper cs := by
  intro hmem
  obtain ⟨c, hc, hquote⟩ := List.mem_flatMap.1 hmem
  exact h (eq_quote_of_mem_latinCapital hquote ▸ hc)

end Text

namespace Formula

/-- The texts differ in the bodies of literals only, and bodies at the same place are related. -/
inductive SameOutside (P : List Char → List Char → Prop) : List Char → List Char → Prop where
  | nil : SameOutside P [] []
  | outside {c cs cs'} : c ≠ '\x22' → SameOutside P cs cs' → SameOutside P (c :: cs) (c :: cs')
  | literal {body body' cs cs'} : '\x22' ∉ body → '\x22' ∉ body' → P body body' →
      SameOutside P cs cs' →
      SameOutside P ('\x22' :: (body ++ '\x22' :: cs)) ('\x22' :: (body' ++ '\x22' :: cs'))
  | unclosed {body} : '\x22' ∉ body → SameOutside P ('\x22' :: body) ('\x22' :: body)

namespace SameOutside

variable {P Q : List Char → List Char → Prop} {cs cs' name : List Char}

theorem symm (h : SameOutside P cs cs') : SameOutside (Function.swap P) cs' cs := by
  induction h with
  | nil => exact .nil
  | outside hc _ ih => exact .outside hc ih
  | literal hbody hbody' hP _ ih => exact .literal hbody' hbody hP ih
  | unclosed hbody => exact .unclosed hbody

theorem append {piece : List Char} (hpiece : '\x22' ∉ piece) (h : SameOutside P cs cs') :
    SameOutside P (piece ++ cs) (piece ++ cs') := by
  induction piece with
  | nil => exact h
  | cons c piece ih =>
    have hc := List.ne_of_not_mem_cons hpiece
    exact .outside hc.symm (ih (List.not_mem_of_not_mem_cons hpiece))

/-- Capitals are formed character by character, and only a quote becomes a quote. -/
theorem upper (h : SameOutside P cs cs')
    (hPQ : ∀ b b', P b b' → Q (Text.upper b) (Text.upper b')) :
    SameOutside Q (Text.upper cs) (Text.upper cs') := by
  have hquote : ∀ cs, Text.upper ('\x22' :: cs) = '\x22' :: Text.upper cs := fun _ => rfl
  induction h with
  | nil => exact .nil
  | outside hc _ ih =>
    exact ih.append fun hmem => hc (Text.eq_quote_of_mem_latinCapital hmem)
  | literal hbody hbody' hP _ ih =>
    rw [hquote, hquote, Text.upper_append, Text.upper_append, hquote, hquote]
    exact .literal (Text.quote_notMem_upper hbody) (Text.quote_notMem_upper hbody') (hPQ _ _ hP) ih
  | unclosed hbody => exact .unclosed (Text.quote_notMem_upper hbody)

theorem prefix_iff (hname : '\x22' ∉ name) (h : SameOutside P cs cs') :
    name <+: cs → name <+: cs' := by
  induction h generalizing name with
  | nil => exact id
  | outside _ _ ih =>
    intro h
    cases name with
    | nil => exact List.nil_prefix
    | cons x name =>
      obtain ⟨rfl, hrest⟩ := List.cons_prefix_cons.1 h
      exact List.cons_prefix_cons.2 ⟨rfl, ih (List.not_mem_of_not_mem_cons hname) hrest⟩
  | literal =>
    intro h
    have hnil : name <+: [] := Text.starts_of_notMem (a := []) hname h
    exact List.prefix_nil.1 hnil ▸ List.nil_prefix
  | unclosed => exact id

/-- What stands in no body stands in both texts or in none. -/
theorem occurs_of_occurs (hname : '\x22' ∉ name) (h : SameOutside P cs cs')
    (hbodies : ∀ b b', P b b' → ¬ name <:+: b) (hin : name <:+: cs) : name <:+: cs' := by
  induction h with
  | nil => exact hin
  | @outside c cs cs' hc h ih =>
    rcases List.infix_cons_iff.1 hin with hhere | hlater
    · exact (prefix_iff hname (.outside hc h) hhere).isInfix
    · exact List.infix_cons (ih hlater)
  | @literal body body' cs cs' _ _ hP _ ih =>
    rcases Text.occurs_left_or_right (a := []) hname hin with hnil | hin
    · exact List.infix_nil.1 hnil ▸ List.nil_infix
    · rcases Text.occurs_left_or_right hname hin with hbody | hlater
      · exact absurd hbody (hbodies _ _ hP)
      · refine (ih hlater).trans ⟨'\x22' :: body' ++ ['\x22'], [], ?_⟩
        simp
  | unclosed => exact hin

end SameOutside

def lookupNames : List String :=
  ["XLOOKUP(", "VLOOKUP(", "HLOOKUP(", "INDEX(", "MATCH("]

def Quiet (body : List Char) : Prop :=
  ∀ name ∈ lookupNames, ¬ name.toList <:+: Text.upper body

instance (body : List Char) : Decidable (Quiet body) :=
  inferInstanceAs (Decidable (∀ name ∈ lookupNames, ¬ name.toList <:+: Text.upper body))

theorem isLookup_eq {f f' : String}
    (h : SameOutside (fun b b' => Quiet b ∧ Quiet b') f.toList f'.toList) :
    isLookup f = isLookup f' := by
  have hcalls : ∀ name ∈ lookupNames,
      Text.contains name.toList (Text.upper f.toList) =
        Text.contains name.toList (Text.upper f'.toList) := by
    intro name hname
    have hquote : '\x22' ∉ name.toList := by
      revert name
      decide
    let silent (u u' : List Char) : Prop := ¬ name.toList <:+: u ∧ ¬ name.toList <:+: u'
    have hupper : SameOutside silent (Text.upper f.toList) (Text.upper f'.toList) :=
      h.upper fun b b' hb => ⟨hb.1 name hname, hb.2 name hname⟩
    refine Text.contains_eq ⟨?_, ?_⟩
    · exact hupper.occurs_of_occurs hquote fun _ _ hb => hb.1
    · exact hupper.symm.occurs_of_occurs hquote fun _ _ hb => hb.2
  simp only [isLookup]
  rw [hcalls "XLOOKUP(" (by decide), hcalls "VLOOKUP(" (by decide), hcalls "HLOOKUP(" (by decide),
    hcalls "INDEX(" (by decide), hcalls "MATCH(" (by decide)]

/-- The texts differ in the number of spaces inside literals only. The flag tells whether the texts
start inside one. -/
inductive Stretched : Bool → List Char → List Char → Prop where
  | nil {inside} : Stretched inside [] []
  | outside {c t t'} : c ≠ '\x22' → Stretched false t t' → Stretched false (c :: t) (c :: t')
  | quote {inside t t'} : Stretched (!inside) t t' →
      Stretched inside ('\x22' :: t) ('\x22' :: t')
  | left {t t'} : Stretched true t t' → Stretched true (' ' :: t) t'
  | right {t t'} : Stretched true t t' → Stretched true t (' ' :: t')

namespace Stretched

variable {inside : Bool} {t t' u u' name : List Char}

theorem symm (h : Stretched inside t t') : Stretched inside t' t := by
  induction h with
  | nil => exact .nil
  | outside hc _ ih => exact .outside hc ih
  | quote _ ih => exact .quote ih
  | left _ ih => exact .right ih
  | right _ ih => exact .left ih

theorem spaces (n m : Nat) (h : Stretched true t t') :
    Stretched true (List.replicate n ' ' ++ t) (List.replicate m ' ' ++ t') := by
  induction n with
  | zero =>
    induction m with
    | zero => exact h
    | succ m ih => exact .right ih
  | succ n ih => exact .left ih

end Stretched

theorem blankLiteralsFrom_outside {c : Char} (hc : c ≠ '\x22') (cs : List Char) :
    blankLiteralsFrom false (c :: cs) = c :: blankLiteralsFrom false cs := by
  rw [blankLiteralsFrom, beq_false_of_ne hc]

theorem blankLiteralsFrom_inside {c : Char} (hc : c ≠ '\x22') (cs : List Char) :
    blankLiteralsFrom true (c :: cs) = ' ' :: blankLiteralsFrom true cs := by
  simp [blankLiteralsFrom, hc]

theorem blankLiteralsFrom_close {c : Char} (hc : c ≠ '\x22') (cs : List Char) :
    blankLiteralsFrom true ('\x22' :: c :: cs) = '\x22' :: c :: blankLiteralsFrom false cs := by
  rw [← blankLiteralsFrom_outside hc]
  simp [blankLiteralsFrom, hc]

inductive IsBody : List Char → Prop where
  | nil : IsBody []
  | char {c cs} : c ≠ '\x22' → IsBody cs → IsBody (c :: cs)
  | quotes {cs} : IsBody cs → IsBody ('\x22' :: '\x22' :: cs)

theorem isBody_of_notMem {body : List Char} (h : '\x22' ∉ body) : IsBody body := by
  induction body with
  | nil => exact .nil
  | cons c body ih =>
    exact .char (List.ne_of_not_mem_cons h).symm (ih (List.not_mem_of_not_mem_cons h))

theorem IsBody.blankLiteralsFrom_append {body : List Char} (h : IsBody body) (cs : List Char) :
    blankLiteralsFrom true (body ++ cs) =
      List.replicate body.length ' ' ++ blankLiteralsFrom true cs := by
  induction h with
  | nil => rfl
  | char hc _ ih =>
    rw [List.cons_append, blankLiteralsFrom_inside hc, ih]
    rfl
  | quotes _ ih =>
    rw [List.cons_append, List.cons_append, blankLiteralsFrom, ih]
    rfl

theorem blankLiteralsFrom_body {body : List Char} (hbody : '\x22' ∉ body) (cs : List Char) :
    blankLiteralsFrom true (body ++ cs) =
      List.replicate body.length ' ' ++ blankLiteralsFrom true cs :=
  (isBody_of_notMem hbody).blankLiteralsFrom_append cs

/-- A quote behind a body closes it, or opens the next one; in both cases the widths alone differ. -/
theorem SameOutside.stretched {P : List Char → List Char → Prop} {cs cs' : List Char}
    (h : SameOutside P cs cs') :
    Stretched false (blankLiterals cs) (blankLiterals cs') ∧
      Stretched true (blankLiteralsFrom true ('\x22' :: cs))
        (blankLiteralsFrom true ('\x22' :: cs')) := by
  unfold blankLiterals
  induction h with
  | nil => exact ⟨.nil, .quote .nil⟩
  | @outside c cs cs' hc _ ih =>
    rw [blankLiteralsFrom_outside hc, blankLiteralsFrom_outside hc, blankLiteralsFrom_close hc,
      blankLiteralsFrom_close hc]
    exact ⟨.outside hc ih.1, .quote (.outside hc ih.1)⟩
  | @literal body body' cs cs' hbody hbody' _ _ ih =>
    have hinside : Stretched true (blankLiteralsFrom true (body ++ '\x22' :: cs))
        (blankLiteralsFrom true (body' ++ '\x22' :: cs')) := by
      rw [blankLiteralsFrom_body hbody, blankLiteralsFrom_body hbody']
      exact ih.2.spaces _ _
    exact ⟨.quote hinside, .left (.left (.right (.right hinside)))⟩
  | @unclosed body hbody =>
    have hinside : Stretched true (blankLiteralsFrom true body) (blankLiteralsFrom true body) := by
      have hnil : Stretched true (blankLiteralsFrom true []) (blankLiteralsFrom true []) := .nil
      rw [← List.append_nil body, blankLiteralsFrom_body hbody]
      exact hnil.spaces _ _
    exact ⟨.quote hinside, .left (.left (.right (.right hinside)))⟩

/-- Bodies that keep their lengths leave the same blanks. -/
theorem SameOutside.blankLiterals_eq {cs cs' : List Char}
    (h : SameOutside (fun b b' => b.length = b'.length) cs cs') :
    blankLiterals cs = blankLiterals cs' := by
  have hboth : blankLiteralsFrom false cs = blankLiteralsFrom false cs' ∧
      blankLiteralsFrom true ('\x22' :: cs) = blankLiteralsFrom true ('\x22' :: cs') := by
    induction h with
    | nil => exact ⟨rfl, rfl⟩
    | @outside c cs cs' hc _ ih =>
      rw [blankLiteralsFrom_outside hc, blankLiteralsFrom_outside hc, blankLiteralsFrom_close hc,
        blankLiteralsFrom_close hc, ih.1]
      exact ⟨rfl, rfl⟩
    | @literal body body' cs cs' hbody hbody' hlength _ ih =>
      have hinside : blankLiteralsFrom true (body ++ '\x22' :: cs) =
          blankLiteralsFrom true (body' ++ '\x22' :: cs') := by
        rw [blankLiteralsFrom_body hbody, blankLiteralsFrom_body hbody', hlength, ih.2]
      exact ⟨congrArg ('\x22' :: ·) hinside, congrArg (' ' :: ' ' :: ·) hinside⟩
    | unclosed => exact ⟨rfl, rfl⟩
  exact hboth.1

/-- The name cannot be taken for blanks inside a literal, nor reach across its quotes. -/
def Shown (name : List Char) : Prop :=
  '\x22' ∉ name ∧ (name = [] ∨ ∃ c ∈ name, c ≠ ' ')

instance (name : List Char) : Decidable (Shown name) :=
  -- The characters are finitely many, but the search is to go through the name only.
  have : Decidable (∃ c ∈ name, c ≠ ' ') := List.decidableBEx (· ≠ ' ') name
  inferInstanceAs (Decidable ('\x22' ∉ name ∧ (name = [] ∨ ∃ c ∈ name, c ≠ ' ')))

namespace Stretched

variable {inside : Bool} {t t' u u' name : List Char}

theorem starts_of_starts (h : Stretched false t t') (hname : '\x22' ∉ name) (hpre : name <+: t) :
    name <+: t' := by
  induction name generalizing t t' with
  | nil => exact List.nil_prefix
  | cons x name ih =>
    cases h with
    | nil => exact hpre
    | outside hc h =>
      obtain ⟨rfl, hrest⟩ := List.cons_prefix_cons.1 hpre
      exact List.cons_prefix_cons.2 ⟨rfl, ih h (List.not_mem_of_not_mem_cons hname) hrest⟩
    | quote h =>
      exact absurd (List.cons_prefix_cons.1 hpre).1.symm (List.ne_of_not_mem_cons hname)

/-- From within a literal there are only spaces up to its quote. -/
theorem eq_space_of_starts (h : Stretched true t t') (hname : '\x22' ∉ name) (hpre : name <+: t) :
    ∀ c ∈ name, c = ' ' := by
  generalize hinside : true = inside at h
  induction h generalizing name with
  | nil => 
    rw [List.prefix_nil.1 hpre]
    exact fun _ h => nomatch h
  | outside => cases hinside
  | quote =>
    have hnil : name <+: [] := Text.starts_of_notMem (a := []) hname hpre
    rw [List.prefix_nil.1 hnil]
    exact fun _ h => nomatch h
  | left _ ih =>
    cases name with
    | nil => exact fun _ h => nomatch h
    | cons x name =>
      obtain ⟨rfl, hrest⟩ := List.cons_prefix_cons.1 hpre
      exact List.forall_mem_cons.2
        ⟨rfl, ih (List.not_mem_of_not_mem_cons hname) hrest rfl⟩
  | right _ ih => exact ih hname hpre rfl

theorem occurs_of_occurs (h : Stretched inside t t') (hname : Shown name) (hin : name <:+: t) :
    name <:+: t' := by
  induction h with
  | nil => exact hin
  | @outside c t t' hc h ih =>
    rcases List.infix_cons_iff.1 hin with hhere | hlater
    · exact (starts_of_starts (.outside hc h) hname.1 hhere).isInfix
    · exact List.infix_cons (ih hlater)
  | quote _ ih =>
    rcases Text.occurs_left_or_right (a := []) hname.1 hin with hnil | hlater
    · exact List.infix_nil.1 hnil ▸ List.nil_infix
    · exact List.infix_cons (ih hlater)
  | left h ih =>
    rcases List.infix_cons_iff.1 hin with hhere | hlater
    · have hspaces := eq_space_of_starts (.left h) hname.1 hhere
      rcases hname.2 with rfl | ⟨c, hc, hne⟩
      · exact List.nil_infix
      · exact absurd (hspaces c hc) hne
    · exact ih hlater
  | right _ ih => exact List.infix_cons (ih hin)

theorem contains_eq (h : Stretched inside t t') (hname : Shown name) :
    Text.contains name t = Text.contains name t' :=
  Text.contains_eq ⟨h.occurs_of_occurs hname, h.symm.occurs_of_occurs hname⟩

/-- Names are read alike, since a literal starts behind them. -/
theorem takeWhile_dropWhile {p : Char → Bool} (hp : p '\x22' = false) (h : Stretched false t t') :
    t.takeWhile p = t'.takeWhile p ∧ Stretched false (t.dropWhile p) (t'.dropWhile p) := by
  generalize hinside : false = inside at h
  induction h with
  | nil => exact ⟨rfl, .nil⟩
  | @outside c t t' hc h ih =>
    cases hpc : p c with
    | true =>
      rw [List.takeWhile_cons_of_pos hpc, List.takeWhile_cons_of_pos hpc,
        List.dropWhile_cons_of_pos hpc, List.dropWhile_cons_of_pos hpc, (ih rfl).1]
      exact ⟨rfl, (ih rfl).2⟩
    | false =>
      have hneg : ¬ p c = true := by simp [hpc]
      rw [List.takeWhile_cons_of_neg hneg, List.takeWhile_cons_of_neg hneg,
        List.dropWhile_cons_of_neg hneg, List.dropWhile_cons_of_neg hneg]
      exact ⟨rfl, .outside hc h⟩
  | quote h =>
    subst hinside
    have hneg : ¬ p '\x22' = true := by simp [hp]
    rw [List.takeWhile_cons_of_neg hneg, List.takeWhile_cons_of_neg hneg,
      List.dropWhile_cons_of_neg hneg, List.dropWhile_cons_of_neg hneg]
    exact ⟨rfl, .quote h⟩
  | left => cases hinside
  | right => cases hinside

theorem of_cons {c : Char} (hc : c ≠ '\x22') (h : Stretched false (c :: t) t') :
    ∃ u', t' = c :: u' ∧ Stretched false t u' := by
  cases h with
  | outside _ h => exact ⟨_, rfl, h⟩
  | quote => exact absurd rfl hc

theorem plainName (h : Stretched false t t') :
    (splitPlainName t).1 = (splitPlainName t').1 ∧
      Stretched false (splitPlainName t).2 (splitPlainName t').2 := by
  cases h with
  | nil => exact ⟨rfl, .nil⟩
  | @outside c t t' hc h =>
    obtain ⟨htake, hdrop⟩ := h.takeWhile_dropWhile (p := isPlainNameChar) (by decide +kernel)
    rw [splitPlainName, splitPlainName]
    split
    · exact ⟨congrArg (c :: ·) htake, hdrop⟩
    · exact ⟨rfl, .outside hc h⟩
  | quote h =>
    have hstart : startsPlainName '\x22' = false := by decide +kernel
    simp only [splitPlainName, hstart]
    exact ⟨rfl, .quote h⟩

theorem noSheet {c : Char} (h : Stretched false t t') :
    Stretched false (behindNoSheet c t) (behindNoSheet c t') := by
  rw [behindNoSheet, behindNoSheet]
  split
  · exact (h.takeWhile_dropWhile (p := isPlainNameChar) (by decide +kernel)).2
  · exact h

/-- A single quote never stands inside a literal, so both texts go on with it at the same place. -/
theorem split_single_quote {rest : List Char} (h : Stretched inside t t') :
    ∀ name, '\x27' ∉ name → t = name ++ '\x27' :: '!' :: rest →
      ∃ name' rest', t' = name' ++ '\x27' :: '!' :: rest' ∧ '\x27' ∉ name' ∧
        Stretched false rest rest' ∧
          (inside = false → ('\x22' ∉ name → name = name') ∧ (name ≠ [] → name' ≠ [])) := by
  induction h with
  | nil => exact fun name _ h => absurd h.symm (by simp)
  | @outside c t t' hc h ih =>
    intro name hname heq
    cases name with
    | nil =>
      obtain ⟨rfl, rfl⟩ := List.cons.inj heq
      obtain ⟨rest', rfl, hrest⟩ := h.of_cons (by decide)
      exact ⟨[], rest', rfl, List.not_mem_nil, hrest, fun _ => ⟨fun _ => rfl, id⟩⟩
    | cons x name =>
      obtain ⟨rfl, htail⟩ := List.cons.inj heq
      obtain ⟨name', rest', rfl, hname', hrest, hsame⟩ :=
        ih name (List.not_mem_of_not_mem_cons hname) htail
      refine ⟨c :: name', rest', rfl, ?_, hrest, fun _ => ⟨fun hquote => ?_, ?_⟩⟩
      · exact List.not_mem_cons_of_ne_of_not_mem (List.ne_of_not_mem_cons hname) hname'
      · exact congrArg (c :: ·) ((hsame rfl).1 (List.not_mem_of_not_mem_cons hquote))
      · exact fun _ => List.cons_ne_nil _ _
  | @quote inside t t' h ih =>
    intro name hname heq
    cases name with
    | nil => exact absurd (List.cons.inj heq).1 (by decide)
    | cons x name =>
      obtain ⟨rfl, htail⟩ := List.cons.inj heq
      obtain ⟨name', rest', rfl, hname', hrest, -⟩ :=
        ih name (List.not_mem_of_not_mem_cons hname) htail
      refine ⟨'\x22' :: name', rest', rfl, ?_, hrest, fun _ => ⟨fun hquote => ?_, ?_⟩⟩
      · exact List.not_mem_cons_of_ne_of_not_mem (by decide) hname'
      · exact absurd List.mem_cons_self hquote
      · exact fun _ => List.cons_ne_nil _ _
  | left _ ih =>
    intro name hname heq
    cases name with
    | nil => exact absurd (List.cons.inj heq).1 (by decide)
    | cons x name =>
      obtain ⟨name', rest', rfl, hname', hrest, -⟩ :=
        ih name (List.not_mem_of_not_mem_cons hname) (List.cons.inj heq).2
      exact ⟨name', rest', rfl, hname', hrest, fun h => nomatch h⟩
  | right _ ih =>
    intro name hname heq
    obtain ⟨name', rest', rfl, hname', hrest, -⟩ := ih name hname heq
    refine ⟨' ' :: name', rest', rfl, ?_, hrest, fun h => nomatch h⟩
    exact List.not_mem_cons_of_ne_of_not_mem (by decide) hname'

end Stretched

theorem quotedSheet?_eq_some_iff {cs name rest : List Char} :
    quotedSheet? cs = some (name, rest) ↔
      name ≠ [] ∧ '\x27' ∉ name ∧ cs = name ++ '\x27' :: '!' :: rest := by
  unfold quotedSheet?
  constructor
  · intro h
    split at h
    · next c name' x rest' htake hdrop =>
      cases h
      refine ⟨List.cons_ne_nil _ _, fun hmem => ?_, ?_⟩
      · rw [← htake] at hmem
        simpa using List.all_eq_true.1 (List.all_takeWhile (l := cs)) _ hmem
      · have hx : ¬ (x != '\x27') = true := by
          have hhead := List.head?_dropWhile_not (· != '\x27') cs
          simpa [hdrop] using hhead
        have hquote : x = '\x27' := by simpa using hx
        rw [← hquote, ← htake, ← hdrop, List.takeWhile_append_dropWhile]
    · cases h
  · rintro ⟨hne, hname, rfl⟩
    have hall : ∀ c ∈ name, (c != '\x27') = true := fun c hc =>
      bne_iff_ne.2 fun h => hname (h ▸ hc)
    rw [List.takeWhile_append_of_pos hall, List.dropWhile_append_of_pos hall]
    cases name with
    | nil => exact absurd rfl hne
    | cons c name => simp

theorem Stretched.sheet {t t' : List Char} {c : Char} (hc : c ≠ '\x22') {sheet after : List Char}
    (h : Stretched false t t') (hs : sheetHere? (c :: t) = some (sheet, after)) :
    ∃ sheet' after', sheetHere? (c :: t') = some (sheet', after') ∧
      Stretched false after after' ∧ ('\x22' ∉ sheet → sheet = sheet') := by
  rw [sheetHere?] at hs ⊢
  by_cases hquoted : c = '\x27'
  · rw [if_pos hquoted] at hs ⊢
    obtain ⟨hne, hsheet, heq⟩ := quotedSheet?_eq_some_iff.1 hs
    obtain ⟨sheet', after', heq', hsheet', hafter, hsame⟩ := h.split_single_quote sheet hsheet heq
    obtain ⟨hname, hne'⟩ := hsame rfl
    exact ⟨sheet', after', quotedSheet?_eq_some_iff.2 ⟨hne' hne, hsheet', heq'⟩, hafter, hname⟩
  · rw [if_neg hquoted] at hs ⊢
    obtain ⟨hplain, hbehind⟩ := (Stretched.outside hc h).plainName
    split at hs
    · next d name rest hsplit =>
      cases hs
      rw [hsplit] at hplain hbehind
      obtain ⟨rest', hrest', hrest⟩ := hbehind.of_cons (by decide)
      have hsplit' : splitPlainName (c :: t') = (d :: name, '!' :: rest') :=
        Prod.ext hplain.symm hrest'
      rw [hsplit']
      exact ⟨d :: name, rest', rfl, hrest, fun _ => rfl⟩
    · cases hs

theorem Stretched.sheetHere?_eq_none {t t' : List Char} {c : Char} (hc : c ≠ '\x22')
    (h : Stretched false t t') (hnone : sheetHere? (c :: t) = none) :
    sheetHere? (c :: t') = none := by
  cases hsome : sheetHere? (c :: t') with
  | none => rfl
  | some found =>
    obtain ⟨_, _, hback, -⟩ := h.symm.sheet hc hsome
    rw [hnone] at hback
    cases hback

theorem sheetMentions_cons_some {c : Char} {cs sheet after : List Char}
    (h : sheetHere? (c :: cs) = some (sheet, after)) :
    sheetMentions (c :: cs) = (String.ofList sheet, String.ofList (splitPlainName after).1) ::
      sheetMentions (splitPlainName after).2 := by
  rw [sheetMentions]
  split
  · next h' =>
    rw [h] at h'
    cases h'
    rfl
  · next h' =>
    rw [h] at h'
    cases h'

theorem sheetMentions_cons_none {c : Char} {cs : List Char} (h : sheetHere? (c :: cs) = none) :
    sheetMentions (c :: cs) = sheetMentions (behindNoSheet c cs) := by
  rw [sheetMentions]
  split
  · next h' =>
    rw [h] at h'
    cases h'
  · rfl

theorem sheetMentions_cons_skip {c : Char} (hc : c = ' ' ∨ c = '\x22') (cs : List Char) :
    sheetMentions (c :: cs) = sheetMentions cs := by
  have hstart : startsPlainName c = false := by
    rcases hc with rfl | rfl <;> decide +kernel
  have hsingle : c ≠ '\x27' := by
    rcases hc with rfl | rfl <;> decide
  have hnone : sheetHere? (c :: cs) = none := by
    simp [sheetHere?, splitPlainName, hsingle, hstart]
  rw [sheetMentions_cons_none hnone, behindNoSheet, hstart]
  rfl

/-- The same sheets are mentioned, unless a literal stands in the name of one. -/
theorem Stretched.sheetMentions_eq {inside : Bool} {t t' : List Char}
    (h : Stretched inside t t') (hnames : ∀ m ∈ sheetMentions t, '\x22' ∉ m.1.toList) :
    sheetMentions t = sheetMentions t' := by
  -- by both lengths, since one text may hold a space where the other has none
  generalize hlength : t.length + t'.length = length
  induction length using Nat.strongRecOn generalizing inside t t' with
  | ind length ih =>
    subst hlength
    cases h with
    | nil => rfl
    | quote h =>
      rw [sheetMentions_cons_skip (.inr rfl)] at hnames
      rw [sheetMentions_cons_skip (.inr rfl), sheetMentions_cons_skip (.inr rfl)]
      exact ih _ (by simp only [List.length_cons]; omega) h hnames rfl
    | left h =>
      rw [sheetMentions_cons_skip (.inl rfl)] at hnames
      rw [sheetMentions_cons_skip (.inl rfl)]
      exact ih _ (by simp only [List.length_cons]; omega) h hnames rfl
    | right h =>
      rw [sheetMentions_cons_skip (.inl rfl)]
      exact ih _ (by simp only [List.length_cons]; omega) h hnames rfl
    | @outside c t t' hc h =>
      cases hhere : sheetHere? (c :: t) with
      | some found =>
        obtain ⟨sheet, after⟩ := found
        obtain ⟨sheet', after', hhere', hafter, hsheet⟩ := h.sheet hc hhere
        rw [sheetMentions_cons_some hhere] at hnames
        obtain ⟨hfirst, hlater⟩ := List.forall_mem_cons.1 hnames
        rw [String.toList_ofList] at hfirst
        obtain rfl := hsheet hfirst
        obtain ⟨hplain, hbehind⟩ := hafter.plainName
        have hshorter : (splitPlainName after).2.length + (splitPlainName after').2.length <
            (c :: t).length + (c :: t').length := by
          have hrest := length_splitPlainName_le after
          have hrest' := length_splitPlainName_le after'
          have hshort := length_sheetHere? hhere
          have hshort' := length_sheetHere? hhere'
          omega
        rw [sheetMentions_cons_some hhere, sheetMentions_cons_some hhere', hplain]
        rw [ih _ hshorter hbehind hlater rfl]
      | none =>
        have hhere' : sheetHere? (c :: t') = none := h.sheetHere?_eq_none hc hhere
        have hshorter : (behindNoSheet c t).length + (behindNoSheet c t').length <
            (c :: t).length + (c :: t').length := by
          have hrest := length_behindNoSheet_le c t
          have hrest' := length_behindNoSheet_le c t'
          simp only [List.length_cons]
          omega
        rw [sheetMentions_cons_none hhere] at hnames
        rw [sheetMentions_cons_none hhere, sheetMentions_cons_none hhere']
        exact ih _ hshorter h.noSheet hnames rfl

end Formula

end WorkbookPlan
