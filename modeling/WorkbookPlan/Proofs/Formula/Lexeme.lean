import Mathlib.Data.List.Chain
import WorkbookPlan.Proofs.Formula.FieldReference

/-! Formulas cut into words, quotations, bracket groups and single marks. Wrapping puts a reference
in the place of each word that is a known name and is not called, and leaves all else alone. -/
namespace WorkbookPlan.Formula

/-- The character stands for itself between words: it is no part of a word, ties no name to another
and opens or closes nothing. -/
def isMark (c : Char) : Bool :=
  !Text.isNameChar c && !(['!', '@', '.', '\x22', '\x27', '[', ']'].contains c)

inductive Lexeme where
  | word (text : List Char) (ne_nil : text ≠ [] := by decide)
      (spelt : text.all Text.isNameChar = true := by decide +kernel)
  /-- A string literal, or a text in single quotes. -/
  | quotation (quote : Char) (body : List Char) (isQuote : quote ∈ ['\x22', '\x27'] := by decide)
      (closed : quote ∉ body := by decide)
  | group (body : List Char) (paired : Paired body)
  | mark (c : Char) (alone : isMark c = true := by decide +kernel)

namespace Lexeme

def isWord : Lexeme → Bool
  | word .. => true
  | _ => false

def chars : Lexeme → List Char
  | word text .. => text
  | quotation quote body .. => quote :: (body ++ [quote])
  | group body _ => '[' :: (body ++ [']'])
  | mark c _ => [c]

/-- An opening parenthesis comes first, or behind blanks. -/
def opensCall : List Lexeme → Bool
  | mark c _ :: ls => c == '(' || (Text.isBlank c && opensCall ls)
  | _ => false

def text (ls : List Lexeme) : List Char :=
  ls.flatMap chars

/-- No word stands directly behind another one, so each is as long as it can be. -/
def Apart (ls : List Lexeme) : Prop :=
  ls.IsChain fun a b => a.isWord = false ∨ b.isWord = false

/-- The text of the pieces in a row, with a reference in the place of each of the names that is not
called. -/
def substituted (names : List (List Char)) : List Lexeme → List Char
  | [] => []
  | word w _ _ :: ls =>
    (if w ∈ names ∧ opensCall ls = false then fieldReference w else w) ++ substituted names ls
  | l :: ls => l.chars ++ substituted names ls

end Lexeme

section Word

variable {names : List (List Char)} {before : Option Char} {c : Char} {w name rest after : List Char}

theorem isNameChar_eq_false (hc : c ∈ ['(', '!', '\x22', '\x27', '[', ']']) :
    Text.isNameChar c = false := by
  have hnone : (['(', '!', '\x22', '\x27', '[', ']'].any Text.isNameChar) = false := by
    decide +kernel
  exact Bool.eq_false_iff.2 (List.any_eq_false.1 hnone c hc)

/-- The characters of a word are neither quotes nor brackets. -/
theorem notMem_of_isNameChar (hc : Text.isNameChar c = true) :
    c ∉ ['(', '!', '\x22', '\x27', '[', ']'] := by
  intro hmem
  rw [isNameChar_eq_false hmem] at hc
  cases hc

theorem plain_of_isNameChar (hc : Text.isNameChar c = true) :
    ¬ (c = '\x22' ∨ c = '\x27' ∨ c = '[') := by
  have hplain := notMem_of_isNameChar hc
  simp only [List.mem_cons, not_or] at hplain
  tauto

theorem takeWhile_word (hw : ∀ c ∈ w, Text.isNameChar c = true)
    (hrest : ∀ c ∈ rest.head?, Text.isNameChar c = false) :
    (w ++ rest).takeWhile Text.isNameChar = w := by
  rw [List.takeWhile_append_of_pos hw]
  cases rest with
  | nil => rw [List.takeWhile_nil, List.append_nil]
  | cons c rest =>
    rw [List.takeWhile_cons_of_neg (by simp [hrest c rfl]), List.append_nil]

theorem isWrappable_word (hne : w ≠ []) (hw : ∀ c ∈ w, Text.isNameChar c = true) :
    isWrappable w = true := by
  have hopen : '[' ∉ w := fun hmem => absurd (notMem_of_isNameChar (hw _ hmem)) (by decide)
  have hclose : ']' ∉ w := fun hmem => absurd (notMem_of_isNameChar (hw _ hmem)) (by decide)
  simp [isWrappable, hne, hopen, hclose]

variable (hnames : ∀ n ∈ names, ∀ c ∈ n, Text.isNameChar c = true)

include hnames

theorem nameHere?_eq_none_of_head (hc : Text.isNameChar c = false) :
    nameHere? names (c :: rest) = none := by
  rw [nameHere?_eq_none_iff]
  intro name hname after hcs hwrap
  cases name with
  | nil => cases hwrap
  | cons d name =>
    obtain ⟨rfl, -⟩ := List.cons.inj hcs
    rw [hnames _ hname c List.mem_cons_self] at hc
    cases hc

/-- Where a word stands, no other name can stand than the word itself. -/
theorem nameHere?_word (hne : w ≠ []) (hw : ∀ c ∈ w, Text.isNameChar c = true)
    (hrest : ∀ c ∈ rest.head?, Text.isNameChar c = false) :
    nameHere? names (w ++ rest) =
      if w ∈ names ∧ mayEndName rest = true then some (w, rest) else none := by
  have honly : ∀ name ∈ names, ∀ after, w ++ rest = name ++ after → mayEndName after = true →
      name = w ∧ after = rest := by
    intro name hname after hcs hend
    have hafter : ∀ c ∈ after.head?, Text.isNameChar c = false := fun c hc =>
      ((mayEndName_iff.1 hend).1 c hc).1
    have hsame : w = name := by
      rw [← takeWhile_word hw hrest, hcs, takeWhile_word (hnames name hname) hafter]
    subst hsame
    exact ⟨rfl, (List.append_cancel_left hcs).symm⟩
  split
  · next hknown =>
    cases hhere : nameHere? names (w ++ rest) with
    | none =>
      have hend := nameHere?_eq_none_iff.1 hhere w hknown.1 rest rfl (isWrappable_word hne hw)
      rw [hknown.2] at hend
      cases hend
    | some found =>
      obtain ⟨name, after⟩ := found
      obtain ⟨hname, hcs, -, hend⟩ := nameHere?_spec hhere
      obtain ⟨rfl, rfl⟩ := honly name hname after hcs hend
      rfl
  · next hunknown =>
    rw [nameHere?_eq_none_iff]
    intro name hname after hcs _
    by_contra hend
    rw [Bool.not_eq_false] at hend
    obtain ⟨rfl, rfl⟩ := honly name hname after hcs hend
    exact hunknown ⟨hname, hend⟩

end Word

section Walk

variable {names : List (List Char)} {before : Option Char} {c : Char} {w rest : List Char}

theorem nameAt?_eq_none_inside (h : mayStartName before = false) (cs : List Char) :
    nameAt? names before cs = none := by
  cases cs with
  | nil => rfl
  | cons c cs => simp [nameAt?, h]

theorem nameAt?_eq_none_of_head (hnames : ∀ n ∈ names, ∀ c ∈ n, Text.isNameChar c = true)
    (hc : Text.isNameChar c = false) : nameAt? names before (c :: rest) = none := by
  rw [nameAt?, nameHere?_eq_none_of_head hnames hc]
  simp

theorem nameAt?_word (hne : w ≠ []) (hw : ∀ c ∈ w, Text.isNameChar c = true)
    (hstart : mayStartName before = true) :
    nameAt? names before (w ++ rest) = nameHere? names (w ++ rest) := by
  obtain ⟨c, w, rfl⟩ := List.exists_cons_of_ne_nil hne
  rw [List.cons_append, nameAt?, if_neg (plain_of_isNameChar (hw c List.mem_cons_self)),
    if_pos hstart]

/-- A word of which no name is wrapped is copied to its end. -/
theorem wrapNamesFrom_word (hne : w ≠ []) (hw : ∀ c ∈ w, Text.isNameChar c = true)
    (hnone : nameAt? names before (w ++ rest) = none) :
    wrapNamesFrom names before (w ++ rest) = w ++ wrapNamesFrom names w.getLast? rest := by
  induction w generalizing before with
  | nil => exact absurd rfl hne
  | cons c w ih =>
    rw [List.cons_append] at hnone
    obtain ⟨hc, hw⟩ := List.forall_mem_cons.1 hw
    have hinside : mayStartName (some c) = false := mayStartName_of_isNameChar hc
    have hplain := plain_of_isNameChar hc
    have hcopy : wrapNamesFrom names before (c :: (w ++ rest)) =
        c :: wrapNamesFrom names (some c) (w ++ rest) := by
      rw [wrapNamesFrom_of_none hnone,
        part_plain (fun h => hplain (h.imp_right .inl)) fun h => hplain (.inr (.inr h))]
      rfl
    by_cases hend : w = []
    · subst hend
      exact hcopy
    · rw [List.cons_append, hcopy, ih hend hw (nameAt?_eq_none_inside hinside _),
        List.getLast?_cons_of_ne_nil hend, List.cons_append]

/-- Where a name may start, a word is wrapped or copied as a whole. -/
theorem wrapNamesFrom_word_eq (hnames : ∀ n ∈ names, ∀ c ∈ n, Text.isNameChar c = true)
    (hne : w ≠ []) (hw : ∀ c ∈ w, Text.isNameChar c = true)
    (hrest : ∀ c ∈ rest.head?, Text.isNameChar c = false) (hstart : mayStartName before = true) :
    wrapNamesFrom names before (w ++ rest) =
      if w ∈ names ∧ mayEndName rest = true then
        fieldReference w ++ wrapNamesFrom names (some ']') rest
      else w ++ wrapNamesFrom names w.getLast? rest := by
  have hname : nameAt? names before (w ++ rest) = nameHere? names (w ++ rest) :=
    nameAt?_word hne hw hstart
  rw [nameHere?_word hnames hne hw hrest] at hname
  split
  · next hknown =>
    rw [if_pos hknown] at hname
    exact wrapNamesFrom_of_name hname
  · next hunknown =>
    rw [if_neg hunknown] at hname
    exact wrapNamesFrom_word hne hw hname

end Walk

namespace Lexeme

variable {names : List (List Char)} {before : Option Char} {l : Lexeme} {ls : List Lexeme}

theorem mark_spec {c : Char} (h : isMark c = true) :
    Text.isNameChar c = false ∧ c ∉ ['!', '@', '.', '\x22', '\x27', '[', ']'] := by
  rw [isMark, Bool.and_eq_true, Bool.not_eq_true', Bool.not_eq_true', List.contains_eq_mem,
    decide_eq_false_iff_not] at h
  exact h

/-- What is no word is copied at once. -/
theorem part_chars (h : l.isWord = false) (x : List Char) : part (l.chars ++ x) = (l.chars, x) := by
  cases l with
  | word => cases h
  | quotation quote body isQuote closed =>
    have hquote : quote = '\x22' ∨ quote = '\x27' := by simpa using isQuote
    rw [chars, List.cons_append, List.append_assoc, List.singleton_append, part_quote hquote,
      splitBehind_body closed]
  | group body paired =>
    rw [chars, List.cons_append, List.append_assoc, List.singleton_append, part_open,
      splitGroup_body paired]
  | mark c alone =>
    have hplain := (mark_spec alone).2
    simp only [List.mem_cons, not_or] at hplain
    obtain ⟨-, -, -, hdouble, hsingle, hopen, -⟩ := hplain
    exact part_plain (by simp [hdouble, hsingle]) hopen

/-- Behind what is no word a name may start. -/
theorem mayStartName_chars (h : l.isWord = false) : mayStartName l.chars.getLast? = true := by
  have hclosing : (['\x22', '\x27', ']'].all fun q => mayStartName (some q)) = true := by
    decide +kernel
  cases l with
  | word => cases h
  | quotation quote body isQuote closed =>
    rw [chars, ← List.cons_append, List.getLast?_concat]
    exact List.all_eq_true.1 hclosing quote (List.mem_append_left [']'] isQuote)
  | group body paired =>
    rw [chars, ← List.cons_append, List.getLast?_concat]
    exact List.all_eq_true.1 hclosing ']' (by decide)
  | mark c alone =>
    obtain ⟨hname, hplain⟩ := mark_spec alone
    simp only [List.mem_cons, not_or] at hplain
    obtain ⟨hbang, hat, hpoint, -⟩ := hplain
    simp [chars, mayStartName, hname, hbang, hat, hpoint]

/-- What is no word has a first character, which is no part of a word and no exclamation mark. -/
theorem exists_head_chars (h : l.isWord = false) :
    ∃ c front, l.chars = c :: front ∧ Text.isNameChar c = false ∧ c ≠ '!' := by
  cases l with
  | word => cases h
  | quotation quote body isQuote closed =>
    have hquote : quote ∈ ['(', '!', '\x22', '\x27', '[', ']'] ∧ quote ≠ '!' := by
      rcases List.mem_pair.1 isQuote with rfl | rfl <;> decide
    exact ⟨quote, body ++ [quote], rfl, isNameChar_eq_false hquote.1, hquote.2⟩
  | group body paired =>
    exact ⟨'[', body ++ [']'], rfl, isNameChar_eq_false (by decide), by decide⟩
  | mark c alone =>
    obtain ⟨hname, hplain⟩ := mark_spec alone
    exact ⟨c, [], rfl, hname, List.ne_of_not_mem_cons hplain⟩

theorem text_cons (l : Lexeme) (ls : List Lexeme) : text (l :: ls) = l.chars ++ text ls :=
  List.flatMap_cons

theorem substituted_cons (h : l.isWord = false) (names : List (List Char)) (ls : List Lexeme) :
    substituted names (l :: ls) = l.chars ++ substituted names ls := by
  cases l with
  | word => cases h
  | quotation | group | mark => rfl

theorem head?_text (h : ∀ l ∈ ls.head?, l.isWord = false) :
    ∀ c ∈ (text ls).head?, Text.isNameChar c = false ∧ c ≠ '!' := by
  intro c hc
  cases ls with
  | nil => cases hc
  | cons l ls =>
    obtain ⟨d, front, hfront, hd⟩ := exists_head_chars (h l rfl)
    rw [text_cons, hfront] at hc
    obtain rfl : d = c := by simpa using hc
    exact hd

/-- A character that is neither blank nor an opening parenthesis hides what comes behind it. -/
theorem head?_trimStart_ne {c : Char} (hblank : Text.isBlank c = false) (hparen : c ≠ '(')
    (cs : List Char) : (Text.trimStart (c :: cs)).head? ≠ some '(' := by
  rw [Text.trimStart_cons, if_neg (by simp [hblank])]
  simpa using hparen

theorem opensCall_iff : opensCall ls = true ↔ (Text.trimStart (text ls)).head? = some '(' := by
  induction ls with
  | nil => exact iff_of_false Bool.false_ne_true (by decide)
  | cons l ls ih =>
    cases l with
    | word w ne_nil spelt =>
      obtain ⟨c, w, rfl⟩ := List.exists_cons_of_ne_nil ne_nil
      have hc := List.all_eq_true.1 spelt c List.mem_cons_self
      have hblank : Text.isBlank c = false := by
        by_contra h
        rw [Text.isNameChar_of_isBlank (by simpa using h)] at hc
        cases hc
      exact iff_of_false Bool.false_ne_true
        (head?_trimStart_ne hblank (List.ne_of_not_mem_cons (notMem_of_isNameChar hc)) _)
    | quotation quote body isQuote closed =>
      have hplain : Text.isBlank quote = false ∧ quote ≠ '(' := by
        rcases List.mem_pair.1 isQuote with rfl | rfl <;> decide
      obtain ⟨hblank, hparen⟩ := hplain
      exact iff_of_false Bool.false_ne_true (head?_trimStart_ne hblank hparen _)
    | group body paired =>
      exact iff_of_false Bool.false_ne_true (head?_trimStart_ne (by decide) (by decide) _)
    | mark c alone =>
      rw [opensCall, Bool.or_eq_true, Bool.and_eq_true, beq_iff_eq, ih, text_cons, chars,
        List.singleton_append, Text.trimStart_cons]
      cases hblank : Text.isBlank c with
      | true =>
        have hparen : c ≠ '(' := by
          rintro rfl
          exact absurd hblank (by decide)
        simp [hparen]
      | false => simp

theorem mayEndName_text (h : ∀ l ∈ ls.head?, l.isWord = false) :
    mayEndName (text ls) = true ↔ opensCall ls = false := by
  rw [mayEndName_iff, ← Bool.not_eq_true, opensCall_iff]
  exact and_iff_right (head?_text h)

/-- The walk comes to a word only where a name may start. -/
theorem wrapNamesFrom_text (hnames : ∀ n ∈ names, ∀ c ∈ n, Text.isNameChar c = true)
    (hapart : Apart ls) (hstart : mayStartName before = true ∨ ∀ l ∈ ls.head?, l.isWord = false) :
    wrapNamesFrom names before (text ls) = substituted names ls := by
  induction ls generalizing before with
  | nil => exact wrapNamesFrom_nil
  | cons l ls ih =>
    obtain ⟨hnext, hrest⟩ := List.isChain_cons.1 hapart
    cases hword : l.isWord with
    | false =>
      obtain ⟨c, front, hfront, hc, -⟩ := exists_head_chars hword
      have hpart := part_chars hword (text ls)
      rw [hfront, List.cons_append] at hpart
      rw [text_cons, substituted_cons hword, hfront, List.cons_append,
        wrapNamesFrom_of_none (nameAt?_eq_none_of_head hnames hc), hpart, ← hfront,
        ih hrest (.inl (mayStartName_chars hword))]
    | true =>
      have hbehind : ∀ l ∈ ls.head?, l.isWord = false := fun m hm =>
        (hnext m hm).resolve_left (by simp [hword])
      have hhere : mayStartName before = true :=
        hstart.resolve_right fun h => by simp [h l rfl] at hword
      cases l with
      | word w ne_nil spelt =>
        have hhead : ∀ c ∈ (text ls).head?, Text.isNameChar c = false := fun c hc =>
          (head?_text hbehind c hc).1
        have hclosed : mayStartName (some ']') = true := by decide +kernel
        have hspelt := List.all_eq_true.1 spelt
        rw [text_cons, chars, substituted, wrapNamesFrom_word_eq hnames ne_nil hspelt hhead hhere,
          ih hrest (.inl hclosed), ih hrest (.inr hbehind)]
        simp only [mayEndName_text hbehind]
        exact (apply_ite (· ++ substituted names ls) _ _ _).symm
      | quotation | group | mark => cases hword

end Lexeme

/-- Wrapping puts a reference in the place of each word that is one of the names and is not called,
and changes nothing else. -/
theorem wrapNames_whole_words {names : List String}
    (hnames : ∀ n ∈ names, ∀ c ∈ n.toList, Text.isNameChar c = true) {formula : String}
    {ls : List Lexeme} (hapart : Lexeme.Apart ls) (hformula : formula.toList = Lexeme.text ls) :
    (wrapNames names formula).toList = Lexeme.substituted (names.map String.toList) ls := by
  have hlists : ∀ n ∈ names.map String.toList, ∀ c ∈ n, Text.isNameChar c = true := by
    simpa using hnames
  rw [wrapNames, String.toList_ofList, hformula]
  exact Lexeme.wrapNamesFrom_text hlists hapart (.inl rfl)

/-- A known word in five places: called, known, the start of a longer word, quoted, in brackets. -/
def invoice : List Lexeme :=
  [.mark '=', .word "SUM".toList, .mark ' ', .mark '(', .word "数量".toList, .mark '*',
    .word "Price".toList, .mark ')', .mark '+', .word "Price2".toList,
    .quotation '\x27' "Price]".toList, .quotation '\x22' "Price(".toList, .word "Tax".toList,
    .group ('[' :: ("Price".toList ++ [']'])) (.group (.of_notMem (by decide) (by decide)) .nil),
    .mark '-', .word "SUM".toList]

theorem wrapNames_whole_words_invoice :
    (∀ n ∈ ["Price", "SUM", "数量", ""], ∀ c ∈ n.toList, Text.isNameChar c = true) ∧
      Lexeme.Apart invoice ∧
      wrapNames ["Price", "SUM", "数量", ""]
          "=SUM (数量*Price)+Price2'Price]'\"Price(\"Tax[[Price]]-SUM" =
        "=SUM (@[数量]*@[Price])+Price2'Price]'\"Price(\"Tax[[Price]]-@[SUM]" := by
  have hspelt : (["Price", "SUM", "数量", ""].all (·.toList.all Text.isNameChar)) = true := by
    decide +kernel
  have hnames : ∀ n ∈ ["Price", "SUM", "数量", ""], ∀ c ∈ n.toList, Text.isNameChar c = true :=
    fun n hn => List.all_eq_true.1 (List.all_eq_true.1 hspelt n hn)
  have hapart : Lexeme.Apart invoice := by
    unfold Lexeme.Apart
    decide
  refine ⟨hnames, hapart, String.toList_inj.1 ?_⟩
  rw [wrapNames_whole_words hnames hapart rfl]
  decide +kernel

end WorkbookPlan.Formula
