import Mathlib.Tactic.Tauto
import WorkbookPlan.Proofs.Text.Pattern
import WorkbookPlan.Repair.MissingSheet

/-! Error texts that tell that a sheet is missing, as a grammar. The name that is found in an error text
is one that the text tells to be missing; and if a text has one name in quotes and tells that this
sheet is missing, this very name is found. -/
namespace WorkbookPlan

namespace MissingSheet

open Text Text.Pattern

def IsGap (cs : List Char) : Prop :=
  cs ≠ [] ∧ ∀ c ∈ cs, isBlank c = true

theorem isGap_blank : IsGap [' '] :=
  ⟨List.cons_ne_nil _ _, List.forall_mem_singleton.2 (by decide)⟩

inductive Phrase : List String → List Char → Prop where
  | single {word cs} : cs.map latinFold = word.toList → Phrase [word] cs
  | cons {word words cs gap rest} : cs.map latinFold = word.toList → IsGap gap →
      Phrase words rest → Phrase (word :: words) (cs ++ gap ++ rest)

/-- The word for a sheet, in any letter case, and a name in quotes, with blanks behind both. -/
inductive Quoted : List Char → List Char → Prop where
  | intro {word gap name gap' opening closing} : word.map latinFold = "sheet".toList →
      IsGap gap → isQuote opening = true → name ≠ [] → (∀ c ∈ name, isQuote c = false) →
      isQuote closing = true → IsGap gap' →
      Quoted (word ++ gap ++ opening :: (name ++ closing :: gap')) name

/-- What is said of a sheet that is missing. -/
def verdicts : List (List String) :=
  [["not", "found"], ["was", "not", "found"], ["does", "not", "exist"]]

/-- The text tells that the sheet of a name is missing. -/
inductive Tells : List Char → List Char → Prop where
  | latin {words lead verdict name} : words ∈ verdicts → Quoted lead name →
      Phrase words verdict → Tells (lead ++ verdict) name
  | chinese {gap name gap' : List Char} {opening closing : Option Char} :
      (∀ c ∈ gap, isBlank c = true) → (∀ c ∈ opening, isOpening c = true) → name ≠ [] →
      (∀ c ∈ name, isBlank c = false ∧ isClosing c = false) →
      (∀ c ∈ closing, isClosing c = true) → (∀ c ∈ gap', isBlank c = true) →
      Tells ("工作表".toList ++ (gap ++ (opening.toList ++ (name ++ (closing.toList ++
        (gap' ++ "不存在".toList)))))) name

/-- Somewhere the error text tells that a sheet is missing. Its name has no blanks around it. -/
def Names (error sheet : String) : Prop :=
  sheet ≠ "" ∧ ∃ front text back name, error.toList = front ++ text ++ back ∧ Tells text name ∧
    sheet = String.ofList (trim name)

section Grammar

variable {before : Option Char} {run rest : List Char} {kept : List (Nat × List Char)}

theorem isPlain_someBlanks : someBlanks.IsPlain IsGap :=
  (isPlain_many isBlank 1).congr fun run => by
    rw [IsGap, and_comm, Nat.one_le_iff_ne_zero, ne_eq, List.length_eq_zero_iff]

theorem isPlain_blanks : Pattern.blanks.IsPlain fun run => ∀ c ∈ run, isBlank c = true :=
  (isPlain_many isBlank 0).congr fun run => and_iff_left (Nat.zero_le run.length)

/-- One character of a class, or none. -/
theorem isPlain_orEmpty_one (p : Char → Bool) : (orEmpty (one p)).IsPlain fun run =>
    ∃ c : Option Char, (∀ x ∈ c, p x = true) ∧ run = c.toList := by
  refine (isPlain_one p).orEmpty.congr fun run => ?_
  constructor
  · rintro (⟨c, hc, rfl⟩ | rfl)
    · exact ⟨some c, by simpa using hc, rfl⟩
    · exact ⟨none, by simp, rfl⟩
  · rintro ⟨_ | c, hc, rfl⟩
    · exact .inr rfl
    · exact .inl ⟨c, hc c rfl, rfl⟩

def phrase (words : List String) : Pattern :=
  inOrder ((words.map anyCase).intersperse someBlanks)

theorem isPlain_phrase {words : List String} (hwords : words ≠ []) :
    (phrase words).IsPlain (Phrase words) := by
  induction words with
  | nil => exact absurd rfl hwords
  | cons word words ih =>
    intro before run rest kept
    cases words with
    | nil =>
      have hone : phrase [word] = seq (anyCase word) empty := rfl
      rw [hone, (isPlain_anyCase word).seq_iff]
      constructor
      · rintro ⟨cs, _, rfl, hword, hend⟩
        obtain ⟨rfl, rfl⟩ := reads_empty_iff.1 hend
        rw [List.append_nil]
        exact ⟨.single hword, rfl⟩
      · rintro ⟨h, rfl⟩
        cases h with
        | single hword => exact ⟨run, [], (List.append_nil run).symm, hword, .empty⟩
        | cons _ _ hnone => cases hnone
    | cons word' words =>
      have hmore : phrase (word :: word' :: words) =
          seq (anyCase word) (seq someBlanks (phrase (word' :: words))) := rfl
      have hlater : (phrase (word' :: words)).IsPlain (Phrase (word' :: words)) :=
        ih (List.cons_ne_nil _ _)
      rw [hmore, (isPlain_anyCase word).seq_iff]
      constructor
      · rintro ⟨cs, _, rfl, hword, h⟩
        obtain ⟨gap, _, rfl, hgap, h⟩ := isPlain_someBlanks.seq_iff.1 h
        obtain ⟨hrest, rfl⟩ := (hlater _ _ _ _).1 h
        rw [← List.append_assoc]
        exact ⟨.cons hword hgap hrest, rfl⟩
      · rintro ⟨h, rfl⟩
        cases h with
        | @cons _ _ cs gap rest' hword hgap hrest =>
          refine ⟨cs, gap ++ rest', List.append_assoc _ _ _, hword, ?_⟩
          exact isPlain_someBlanks.seq_iff.2 ⟨gap, rest', rfl, hgap, (hlater _ _ _ _).2 ⟨hrest, rfl⟩⟩

theorem reads_quotedSheet_iff : Reads quotedSheet before run rest kept ↔
    ∃ name, Quoted run name ∧ kept = [(1, name)] := by
  have hparts : quotedSheet = seq (anyCase "sheet") (seq someBlanks (seq (one isQuote)
      (seq (keep 1 (many (!isQuote ·) 1 none)) (seq (one isQuote) (seq someBlanks empty))))) := rfl
  rw [hparts]
  constructor
  · intro h
    obtain ⟨word, _, rfl, hword, h⟩ := (isPlain_anyCase _).seq_iff.1 h
    obtain ⟨gap, _, rfl, hgap, h⟩ := isPlain_someBlanks.seq_iff.1 h
    obtain ⟨_, _, rfl, ⟨opening, hopening, rfl⟩, h⟩ := (isPlain_one _).seq_iff.1 h
    obtain ⟨name, _, _, _, rfl, rfl, hkeep, htail⟩ := reads_seq_iff.1 h
    obtain ⟨_, rfl, hmany⟩ := reads_keep_iff.1 hkeep
    obtain ⟨hname, hlength, rfl⟩ := reads_many_iff.1 hmany
    obtain ⟨_, _, rfl, ⟨closing, hclosing, rfl⟩, h⟩ := (isPlain_one _).seq_iff.1 htail
    obtain ⟨gap', _, rfl, hgap', h⟩ := isPlain_someBlanks.seq_iff.1 h
    obtain ⟨rfl, rfl⟩ := reads_empty_iff.1 h
    refine ⟨name, ?_, rfl⟩
    have hquoted : Quoted (word ++ gap ++ opening :: (name ++ closing :: gap')) name :=
      .intro hword hgap hopening (List.ne_nil_of_length_pos hlength) (by simpa using hname)
        hclosing hgap'
    simpa using hquoted
  · rintro ⟨name, ⟨hword, hgap, hopening, hne, hname, hclosing, hgap'⟩, rfl⟩
    have hmany : ∀ before rest, Reads (keep 1 (many (!isQuote ·) 1 none)) before name rest
        [(1, name)] := fun _ _ =>
      .keep (.many (by simpa using hname) (List.length_pos_iff.2 hne) (by simp))
    refine (isPlain_anyCase _).seq_iff.2 ⟨_, _, List.append_assoc _ _ _, hword, ?_⟩
    refine isPlain_someBlanks.seq_iff.2 ⟨_, _, rfl, hgap, ?_⟩
    refine (isPlain_one _).seq_iff.2 ⟨_, _, rfl, ⟨_, hopening, rfl⟩, ?_⟩
    refine reads_seq_iff.2 ⟨_, _, _, [], rfl, rfl, hmany _ _, ?_⟩
    refine (isPlain_one _).seq_iff.2 ⟨_, _, rfl, ⟨_, hclosing, rfl⟩, ?_⟩
    exact isPlain_someBlanks.seq_iff.2 ⟨_, [], (List.append_nil _).symm, hgap', .empty⟩

/-- A sheet in quotes, and words behind it. -/
theorem reads_quotedSheet_phrase_iff {words : List String} (hwords : words ≠ []) :
    Reads (seq quotedSheet (phrase words)) before run rest kept ↔
      ∃ lead verdict name, run = lead ++ verdict ∧ Quoted lead name ∧ Phrase words verdict ∧
        kept = [(1, name)] := by
  rw [reads_seq_iff]
  constructor
  · rintro ⟨lead, verdict, _, _, rfl, rfl, hlead, hverdict⟩
    obtain ⟨name, hquoted, rfl⟩ := reads_quotedSheet_iff.1 hlead
    obtain ⟨hphrase, rfl⟩ := (isPlain_phrase hwords _ _ _ _).1 hverdict
    exact ⟨lead, verdict, name, rfl, hquoted, hphrase, rfl⟩
  · rintro ⟨lead, verdict, name, rfl, hquoted, hphrase, rfl⟩
    exact ⟨lead, verdict, _, _, rfl, rfl, reads_quotedSheet_iff.2 ⟨name, hquoted, rfl⟩,
      (isPlain_phrase hwords _ _ _ _).2 ⟨hphrase, rfl⟩⟩

/-- The word `was` may stand there or not. -/
theorem reads_notFound_iff : Reads notFound before run rest kept ↔
    Reads (seq quotedSheet (phrase ["not", "found"])) before run rest kept ∨
      Reads (seq quotedSheet (phrase ["was", "not", "found"])) before run rest kept := by
  have hparts : notFound = seq quotedSheet
      (seq (orEmpty (seq (anyCase "was") someBlanks)) (phrase ["not", "found"])) := rfl
  have hwas : phrase ["was", "not", "found"] =
      seq (anyCase "was") (seq someBlanks (phrase ["not", "found"])) := rfl
  rw [hparts, hwas]
  constructor
  · intro h
    obtain ⟨lead, _, _, _, rfl, rfl, hlead, htail⟩ := reads_seq_iff.1 h
    rcases reads_orEmpty_seq_iff.1 htail with hwords | hwords
    · exact .inr (.seq hlead (reads_seq_assoc.1 hwords))
    · exact .inl (.seq hlead hwords)
  · rintro (h | h)
    · obtain ⟨lead, _, _, _, rfl, rfl, hlead, hwords⟩ := reads_seq_iff.1 h
      exact .seq hlead (reads_orEmpty_seq_iff.2 (.inr hwords))
    · obtain ⟨lead, _, _, _, rfl, rfl, hlead, hwords⟩ := reads_seq_iff.1 h
      exact .seq hlead (reads_orEmpty_seq_iff.2 (.inl (reads_seq_assoc.2 hwords)))

end Grammar

section Latin

variable {before : Option Char} {run rest lead verdict name : List Char} {words : List String}
  {kept : List (Nat × List Char)}

theorem ne_nil_of_mem_verdicts (h : words ∈ verdicts) : words ≠ [] := by
  rintro rfl
  simp [verdicts] at h

/-- The first two patterns read a sheet in quotes and what is said of it. -/
theorem quoted_of_reads {p : Pattern} (hp : p ∈ [notFound, doesNotExist])
    (h : Reads p before run rest kept) : ∃ words ∈ verdicts, ∃ lead verdict name,
      run = lead ++ verdict ∧ Quoted lead name ∧ Phrase words verdict ∧ kept = [(1, name)] := by
  have hwords : ∃ words ∈ verdicts, Reads (seq quotedSheet (phrase words)) before run rest kept := by
    simp only [List.mem_cons, List.not_mem_nil, or_false] at hp
    rcases hp with rfl | rfl
    · rcases reads_notFound_iff.1 h with h | h
      · exact ⟨_, by simp [verdicts], h⟩
      · exact ⟨_, by simp [verdicts], h⟩
    · have hparts : doesNotExist = seq quotedSheet (phrase ["does", "not", "exist"]) := rfl
      rw [hparts] at h
      exact ⟨_, by simp [verdicts], h⟩
  obtain ⟨words, hwords, h⟩ := hwords
  exact ⟨words, hwords, (reads_quotedSheet_phrase_iff (ne_nil_of_mem_verdicts hwords)).1 h⟩

/-- One of the first two patterns reads it, whatever is said. -/
theorem reads_of_quoted (before : Option Char) (rest : List Char) (hwords : words ∈ verdicts)
    (hlead : Quoted lead name) (hverdict : Phrase words verdict) :
    ∃ p ∈ [notFound, doesNotExist], Reads p before (lead ++ verdict) rest [(1, name)] := by
  have hread : Reads (seq quotedSheet (phrase words)) before (lead ++ verdict) rest [(1, name)] :=
    (reads_quotedSheet_phrase_iff (ne_nil_of_mem_verdicts hwords)).2
      ⟨lead, verdict, name, rfl, hlead, hverdict, rfl⟩
  simp only [verdicts, List.mem_cons, List.not_mem_nil, or_false] at hwords
  rcases hwords with rfl | rfl | rfl
  · exact ⟨notFound, by simp, reads_notFound_iff.2 (.inl hread)⟩
  · exact ⟨notFound, by simp, reads_notFound_iff.2 (.inr hread)⟩
  · exact ⟨doesNotExist, by simp, hread⟩

end Latin

theorem reads_chinese {before : Option Char} {run rest : List Char} {kept : List (Nat × List Char)}
    (h : Reads doesNotExistChinese before run rest kept) :
    ∃ name, Tells run name ∧ kept = [(1, name)] := by
  have hparts : doesNotExistChinese = seq (literal "工作表") (seq Pattern.blanks (seq
      (orEmpty (one isOpening)) (seq (keep 1 (few (fun c => !isBlank c && !isClosing c) 1))
        (seq (orEmpty (one isClosing)) (seq Pattern.blanks (seq (literal "不存在") empty)))))) := rfl
  rw [hparts] at h
  obtain ⟨_, _, rfl, rfl, h⟩ := (isPlain_literal _).seq_iff.1 h
  obtain ⟨gap, _, rfl, hgap, h⟩ := isPlain_blanks.seq_iff.1 h
  obtain ⟨_, _, rfl, ⟨opening, hopening, rfl⟩, h⟩ := (isPlain_orEmpty_one _).seq_iff.1 h
  obtain ⟨name, _, _, _, rfl, rfl, hkeep, htail⟩ := reads_seq_iff.1 h
  obtain ⟨_, rfl, hfew⟩ := reads_keep_iff.1 hkeep
  obtain ⟨hname, hlength, rfl⟩ := reads_few_iff.1 hfew
  obtain ⟨_, _, rfl, ⟨closing, hclosing, rfl⟩, h⟩ := (isPlain_orEmpty_one _).seq_iff.1 htail
  obtain ⟨gap', _, rfl, hgap', h⟩ := isPlain_blanks.seq_iff.1 h
  obtain ⟨_, _, rfl, rfl, h⟩ := (isPlain_literal _).seq_iff.1 h
  obtain ⟨rfl, rfl⟩ := reads_empty_iff.1 h
  refine ⟨name, ?_, rfl⟩
  rw [List.append_nil]
  exact .chinese hgap hopening (List.ne_nil_of_length_pos hlength) (by simpa using hname)
    hclosing hgap'

theorem tells_of_reads {p : Pattern} {before : Option Char} {run rest : List Char}
    {kept : List (Nat × List Char)} (hp : p ∈ [notFound, doesNotExist, doesNotExistChinese])
    (h : Reads p before run rest kept) : ∃ name, Tells run name ∧ kept = [(1, name)] := by
  by_cases hlatin : p ∈ [notFound, doesNotExist]
  · obtain ⟨words, hwords, lead, verdict, name, rfl, hlead, hverdict, rfl⟩ :=
      quoted_of_reads hlatin h
    exact ⟨name, .latin hwords hlead hverdict, rfl⟩
  · obtain rfl : p = doesNotExistChinese := by
      simp only [List.mem_cons, List.not_mem_nil, or_false] at hp hlatin
      tauto
    exact reads_chinese h

/-- The pattern that finds something first decides, unless the name that it keeps is blank. -/
theorem find?_eq_some_iff {error sheet : String} : find? error = some sheet ↔
    ∃ m, [notFound, doesNotExist, doesNotExistChinese].findSome? (·.search error.toList) = some m ∧
      trim ((m.kept? 1).getD []) ≠ [] ∧
      sheet = String.ofList (trim ((m.kept? 1).getD [])) := by
  simp only [find?]
  cases [notFound, doesNotExist, doesNotExistChinese].findSome? (·.search error.toList) with
  | none => simp
  | some m =>
    cases htrim : trim ((m.kept? 1).getD []) with
    | nil => simp [htrim]
    | cons c cs => simpa [htrim] using eq_comm

/-- What is found is told to be missing. -/
theorem names_of_find? {error sheet : String} (h : find? error = some sheet) :
    Names error sheet := by
  obtain ⟨m, hm, htrim, rfl⟩ := find?_eq_some_iff.1 h
  obtain ⟨p, hp, hsearch⟩ := List.exists_of_findSome?_eq_some hm
  obtain ⟨front, run, back, herror, hreads⟩ := reads_of_search hsearch
  obtain ⟨name, htells, hkept⟩ := tells_of_reads hp hreads
  have hname : m.kept? 1 = some name := by
    rw [Match.kept?_eq, hkept]
    rfl
  rw [hname, Option.getD_some] at htrim ⊢
  refine ⟨?_, front, run, back, name, herror, htells, rfl⟩
  simpa [← String.toList_inj] using htrim

section Unquoted

def Unquoted (cs : List Char) : Prop :=
  ∀ c ∈ cs, isQuote c = false

instance (cs : List Char) : Decidable (Unquoted cs) :=
  decidable_of_iff (cs.all (!isQuote ·) = true) (by simp [Unquoted])

theorem unquoted_append {a b : List Char} : Unquoted (a ++ b) ↔ Unquoted a ∧ Unquoted b :=
  List.forall_mem_append

theorem isQuote_eq_false {c : Char} (hsingle : c ≠ '\x27') (hdouble : c ≠ '\x22') :
    isQuote c = false := by
  simp [isQuote, hsingle, hdouble]

theorem unquoted_of_blank {cs : List Char} (h : ∀ c ∈ cs, isBlank c = true) : Unquoted cs := by
  intro c hc
  have hblank := h c hc
  apply isQuote_eq_false
  · rintro rfl
    exact absurd hblank (by decide)
  · rintro rfl
    exact absurd hblank (by decide)

/-- Quotes stand for themselves in any letter case. -/
theorem unquoted_of_map_latinFold {cs : List Char} {word : String}
    (h : cs.map latinFold = word.toList) (hword : Unquoted word.toList) : Unquoted cs := by
  intro c hc
  have hfold : isQuote (latinFold c) = false := hword _ (h ▸ List.mem_map_of_mem hc)
  apply isQuote_eq_false
  · rintro rfl
    exact absurd hfold (by decide)
  · rintro rfl
    exact absurd hfold (by decide)

theorem Phrase.unquoted {words : List String} {cs : List Char} (h : Phrase words cs)
    (hwords : ∀ word ∈ words, Unquoted word.toList) : Unquoted cs := by
  induction h with
  | single hword => exact unquoted_of_map_latinFold hword (hwords _ List.mem_cons_self)
  | cons hword hgap _ ih =>
    have hfirst := unquoted_of_map_latinFold hword (hwords _ List.mem_cons_self)
    have hrest := ih fun word hmem => hwords word (List.mem_cons_of_mem _ hmem)
    exact unquoted_append.2 ⟨unquoted_append.2 ⟨hfirst, unquoted_of_blank hgap.2⟩, hrest⟩

variable {a b n a' b' n' : List Char} {q r s t : Char}

theorem append_quote_inj (ha : Unquoted a) (ha' : Unquoted a') (hq : isQuote q = true)
    (hr : isQuote r = true) (h : a ++ q :: b = a' ++ r :: b') : a = a' ∧ b = b' := by
  have hstart : ∀ {a b : List Char} {q : Char}, Unquoted a → isQuote q = true →
      (a ++ q :: b).takeWhile (!isQuote ·) = a := by
    intro a b q ha hq
    rw [List.takeWhile_append_of_pos (by simpa [Unquoted] using ha),
      List.takeWhile_cons_of_neg (by simp [hq]), List.append_nil]
  have hsame : a = a' := by rw [← hstart ha hq (b := b), h, hstart ha' hr]
  subst hsame
  exact ⟨rfl, (List.cons.inj (List.append_cancel_left h)).2⟩

/-- In a text with two quotes just one name stands between quotes. -/
theorem quoted_unique (ha : Unquoted a) (hn : Unquoted n) (hb : Unquoted b) (hn' : Unquoted n')
    (hq : isQuote q = true) (hr : isQuote r = true) (hs : isQuote s = true)
    (ht : isQuote t = true) (h : a ++ q :: (n ++ r :: b) = a' ++ s :: (n' ++ t :: b')) : n' = n := by
  have hcount : ∀ {cs : List Char}, Unquoted cs ↔ cs.countP isQuote = 0 := by
    intro cs
    rw [List.countP_eq_zero]
    simp [Unquoted]
  have ha' : Unquoted a' := by
    have htotal := congrArg (List.countP isQuote) h
    rw [hcount] at ha hn hb hn' ⊢
    simp only [List.countP_append, List.countP_cons, hq, hr, hs, ht, ha, hn, hb, hn', if_true] at htotal
    omega
  obtain ⟨rfl, htail⟩ := append_quote_inj ha ha' hq hs h
  exact (append_quote_inj hn hn' hr ht htail).1.symm

end Unquoted

theorem unquoted_verdict {words : List String} {verdict : List Char} (hwords : words ∈ verdicts)
    (h : Phrase words verdict) : Unquoted verdict := by
  have hall : ∀ words ∈ verdicts, ∀ word ∈ words, Unquoted word.toList := by decide
  exact h.unquoted fun word hword => hall words hwords word hword

/-- If there are no quotes around a sheet in quotes, no other name is read anywhere in the text. -/
theorem Quoted.unique {front back front' back' lead lead' verdict verdict' name name' : List Char}
    (h : Quoted lead name) (h' : Quoted lead' name') (hfront : Unquoted front)
    (hverdict : Unquoted verdict) (hback : Unquoted back)
    (heq : front ++ (lead ++ verdict) ++ back = front' ++ (lead' ++ verdict') ++ back') :
    name' = name := by
  have hsheet : Unquoted "sheet".toList := by decide
  cases h with
  | @intro word gap _ gap' opening closing hword hgap hopening _ hname hclosing hgap' =>
    cases h' with
    | @intro word₁ gap₁ _ gap₁' opening₁ closing₁ _ _ hopening₁ _ hname₁ hclosing₁ _ =>
      have hbefore : Unquoted (front ++ (word ++ gap)) :=
        unquoted_append.2 ⟨hfront, unquoted_append.2
          ⟨unquoted_of_map_latinFold hword hsheet, unquoted_of_blank hgap.2⟩⟩
      have hbehind : Unquoted (gap' ++ (verdict ++ back)) :=
        unquoted_append.2 ⟨unquoted_of_blank hgap'.2, unquoted_append.2 ⟨hverdict, hback⟩⟩
      have hquotes : front ++ (word ++ gap) ++ opening ::
            (name ++ closing :: (gap' ++ (verdict ++ back))) =
          front' ++ (word₁ ++ gap₁) ++ opening₁ ::
            (name' ++ closing₁ :: (gap₁' ++ (verdict' ++ back'))) := by simpa using heq
      exact quoted_unique hbefore hname hbehind hname₁ hopening hclosing hopening₁ hclosing₁ hquotes

/-- If an error text tells that a sheet is missing, and nothing else in it is in quotes, then the sheet
is found. -/
theorem find?_of_quoted {error : String} {front lead verdict back name : List Char}
    {words : List String} (herror : error.toList = front ++ (lead ++ verdict) ++ back)
    (hfront : Unquoted front) (hback : Unquoted back) (hwords : words ∈ verdicts)
    (hlead : Quoted lead name) (hverdict : Phrase words verdict) (hname : trim name ≠ []) :
    find? error = some (String.ofList (trim name)) := by
  -- one of the first two patterns reads the text, so one of them finds something
  have hfound : ∃ p ∈ [notFound, doesNotExist], (p.search error.toList).isSome := by
    obtain ⟨p, hp, hreads⟩ := reads_of_quoted front.getLast? back hwords hlead hverdict
    rw [herror]
    exact ⟨p, hp, isSome_search hreads⟩
  -- and what any of them finds stands between the two quotes of the text
  have hkept : ∀ p ∈ [notFound, doesNotExist], ∀ m, p.search error.toList = some m →
      m.kept? 1 = some name := by
    intro p hp m hm
    obtain ⟨front', run, back', herror', hreads⟩ := reads_of_search hm
    obtain ⟨_, _, lead', verdict', name', rfl, hlead', -, htexts⟩ := quoted_of_reads hp hreads
    have hsame : name' = name :=
      hlead.unique hlead' hfront (unquoted_verdict hwords hverdict) hback (herror ▸ herror')
    rw [Match.kept?_eq, htexts, hsame]
    rfl
  have hfirst : ∃ m, [notFound, doesNotExist].findSome? (·.search error.toList) = some m :=
    Option.isSome_iff_exists.1 (List.findSome?_isSome_iff.2 hfound)
  obtain ⟨m, hm⟩ := hfirst
  have hall : [notFound, doesNotExist, doesNotExistChinese].findSome? (·.search error.toList) =
      some m := by
    have hsplit : [notFound, doesNotExist, doesNotExistChinese] =
        [notFound, doesNotExist] ++ [doesNotExistChinese] := rfl
    rw [hsplit, List.findSome?_append, hm, Option.some_or]
  obtain ⟨p, hp, hsearch⟩ := List.exists_of_findSome?_eq_some hm
  have hm' : m.kept? 1 = some name := hkept p hp m hsearch
  exact find?_eq_some_iff.2 ⟨m, hall, by rwa [hm', Option.getD_some], by rw [hm', Option.getD_some]⟩

end MissingSheet

end WorkbookPlan
