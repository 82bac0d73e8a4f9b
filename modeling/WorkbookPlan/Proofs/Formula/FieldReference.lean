import WorkbookPlan.Formula.FieldReference
import WorkbookPlan.Proofs.Text.Blank

/-! Wrapping field names twice is wrapping them once. A text is settled if no name that could be
wrapped stands between its quotations and bracket groups; such a text is left alone, and wrapping
settles any text: the references are bracket groups, and between them no name fits that did not fit
before. -/
namespace WorkbookPlan.Formula

inductive Paired : List Char → Prop where
  | nil : Paired []
  | plain {c cs} : c ≠ '[' → c ≠ ']' → Paired cs → Paired (c :: cs)
  | group {x cs} : Paired x → Paired cs → Paired ('[' :: (x ++ ']' :: cs))

theorem Paired.of_notMem {cs : List Char} (hopen : '[' ∉ cs) (hclose : ']' ∉ cs) : Paired cs := by
  induction cs with
  | nil => exact .nil
  | cons c cs ih =>
    apply Paired.plain (List.ne_of_not_mem_cons hopen).symm (List.ne_of_not_mem_cons hclose).symm
    exact ih (List.not_mem_of_not_mem_cons hopen) (List.not_mem_of_not_mem_cons hclose)

section Split

variable {q : Char} {depth : Nat} {cs x : List Char}

/-- What stands behind a closed quotation does not matter to where it is closed. -/
theorem splitBehind_stable (h : (splitBehind q cs).2 = [] → x = []) :
    splitBehind q ((splitBehind q cs).1 ++ x) = ((splitBehind q cs).1, x) := by
  induction cs with
  | nil =>
    obtain rfl := h rfl
    rfl
  | cons c cs ih =>
    simp only [splitBehind] at h ⊢
    split
    · next hc => simp [splitBehind, hc]
    · next hc =>
      rw [if_neg hc] at h
      simp only [List.cons_append, splitBehind, if_neg hc, ih h]

theorem getLast?_splitBehind (q : Char) (cs : List Char) :
    (splitBehind q cs).2 = [] ∨ (splitBehind q cs).1.getLast? = some q := by
  induction cs with
  | nil => exact .inl rfl
  | cons c cs ih =>
    simp only [splitBehind]
    split
    · next hc => exact .inr (by simp [hc])
    · rcases ih with hnil | hlast
      · exact .inl hnil
      · exact .inr (by simp [List.getLast?_cons, hlast])

theorem splitGroup_stable (h : (splitGroup depth cs).2 = [] → x = []) :
    splitGroup depth ((splitGroup depth cs).1 ++ x) = ((splitGroup depth cs).1, x) := by
  induction cs generalizing depth with
  | nil =>
    obtain rfl := h rfl
    rfl
  | cons c cs ih =>
    simp only [splitGroup] at h ⊢
    split
    · next hc => simp [splitGroup, hc]
    · next hc =>
      rw [if_neg hc] at h
      simp only [List.cons_append, splitGroup, if_neg hc, ih h]

theorem getLast?_splitGroup (depth : Nat) (cs : List Char) :
    (splitGroup depth cs).2 = [] ∨ (splitGroup depth cs).1.getLast? = some ']' := by
  induction cs generalizing depth with
  | nil => exact .inl rfl
  | cons c cs ih =>
    simp only [splitGroup]
    split
    · next hc => exact .inr (by simp [hc.1])
    · rcases ih (if c = '[' then depth + 1 else if c = ']' then depth - 1 else depth)
        with hnil | hlast
      · exact .inl hnil
      · exact .inr (by simp [List.getLast?_cons, hlast])

theorem splitGroup_plain {c : Char} (hopen : c ≠ '[') (hclose : c ≠ ']') (depth : Nat)
    (cs : List Char) :
    splitGroup depth (c :: cs) = (c :: (splitGroup depth cs).1, (splitGroup depth cs).2) := by
  simp [splitGroup, hopen, hclose]

/-- Paired brackets leave the depth as it was. -/
theorem splitGroup_paired (h : Paired x) (depth : Nat) (y : List Char) :
    splitGroup (depth + 1) (x ++ y) =
      (x ++ (splitGroup (depth + 1) y).1, (splitGroup (depth + 1) y).2) := by
  induction h generalizing depth y with
  | nil => rfl
  | plain hopen hclose _ ih =>
    rw [List.cons_append, splitGroup_plain hopen hclose, ih]
    rfl
  | @group x cs _ _ ihx ih =>
    have hopened : splitGroup (depth + 1) ('[' :: (x ++ ']' :: (cs ++ y))) =
        ('[' :: (splitGroup (depth + 2) (x ++ ']' :: (cs ++ y))).1,
          (splitGroup (depth + 2) (x ++ ']' :: (cs ++ y))).2) := rfl
    have hclosed : splitGroup (depth + 2) (']' :: (cs ++ y)) =
        (']' :: (splitGroup (depth + 1) (cs ++ y)).1, (splitGroup (depth + 1) (cs ++ y)).2) := by
      simp [splitGroup]
    rw [List.cons_append, List.append_assoc, List.cons_append, hopened, ihx, hclosed, ih]
    simp

theorem splitGroup_body (h : Paired x) (y : List Char) :
    splitGroup 1 (x ++ ']' :: y) = (x ++ [']'], y) :=
  splitGroup_paired h 0 (']' :: y)

theorem splitBehind_body {q : Char} (h : q ∉ x) (y : List Char) :
    splitBehind q (x ++ q :: y) = (x ++ [q], y) := by
  induction x with
  | nil => simp [splitBehind]
  | cons c x ih =>
    have hc : c ≠ q := (List.ne_of_not_mem_cons h).symm
    rw [List.cons_append, splitBehind, if_neg hc, ih (List.not_mem_of_not_mem_cons h)]
    rfl

end Split

/-- What is copied at once, and the text behind it: a quotation, a bracket group, one character. -/
def part : List Char → List Char × List Char
  | [] => ([], [])
  | c :: rest =>
    if c = '\x22' ∨ c = '\x27' then (c :: (splitBehind c rest).1, (splitBehind c rest).2)
    else if c = '[' then (c :: (splitGroup 1 rest).1, (splitGroup 1 rest).2)
    else ([c], rest)

/-- The name that is wrapped here, with the text behind it. -/
def nameAt? (names : List (List Char)) (before : Option Char) :
    List Char → Option (List Char × List Char)
  | [] => none
  | c :: rest =>
    if c = '\x22' ∨ c = '\x27' ∨ c = '[' then none
    else if mayStartName before then nameHere? names (c :: rest) else none

section Part

variable {c : Char} {cs x : List Char}

theorem part_quote (h : c = '\x22' ∨ c = '\x27') :
    part (c :: cs) = (c :: (splitBehind c cs).1, (splitBehind c cs).2) :=
  if_pos h

theorem part_open : part ('[' :: cs) = ('[' :: (splitGroup 1 cs).1, (splitGroup 1 cs).2) := rfl

theorem part_plain (hquote : ¬ (c = '\x22' ∨ c = '\x27')) (hopen : c ≠ '[') :
    part (c :: cs) = ([c], cs) := by
  rw [part, if_neg hquote, if_neg hopen]

theorem part_append (c : Char) (cs : List Char) :
    (part (c :: cs)).1 ++ (part (c :: cs)).2 = c :: cs := by
  by_cases hquote : c = '\x22' ∨ c = '\x27'
  · rw [part_quote hquote, List.cons_append, splitBehind_append]
  by_cases hopen : c = '['
  · subst hopen
    rw [part_open, List.cons_append, splitGroup_append]
  · rw [part_plain hquote hopen, List.singleton_append]

theorem exists_part (c : Char) (cs : List Char) : ∃ front, (part (c :: cs)).1 = c :: front := by
  by_cases hquote : c = '\x22' ∨ c = '\x27'
  · exact ⟨_, by rw [part_quote hquote]⟩
  by_cases hopen : c = '['
  · subst hopen
    exact ⟨_, by rw [part_open]⟩
  · exact ⟨_, by rw [part_plain hquote hopen]⟩

theorem length_part (c : Char) (cs : List Char) : (part (c :: cs)).2.length < (c :: cs).length := by
  obtain ⟨front, hfront⟩ := exists_part c cs
  have hlength := congrArg List.length (part_append c cs)
  rw [hfront, List.length_append, List.length_cons] at hlength
  omega

/-- What is copied at once is copied at once again, with another text behind it. -/
theorem part_stable (h : (part (c :: cs)).2 = [] → x = []) :
    part ((part (c :: cs)).1 ++ x) = ((part (c :: cs)).1, x) := by
  by_cases hquote : c = '\x22' ∨ c = '\x27'
  · rw [part_quote hquote] at h ⊢
    rw [List.cons_append, part_quote hquote, splitBehind_stable h]
  by_cases hopen : c = '['
  · subst hopen
    rw [part_open] at h ⊢
    rw [List.cons_append, part_open, splitGroup_stable h]
  · rw [part_plain hquote hopen, List.singleton_append, part_plain hquote hopen]

end Part

section Walk

variable {names : List (List Char)} {before : Option Char} {c : Char} {cs name after : List Char}

theorem nameHere?_of_nameAt? (h : nameAt? names before cs = some (name, after)) :
    nameHere? names cs = some (name, after) := by
  cases cs with
  | nil => cases h
  | cons c cs =>
    simp only [nameAt?] at h
    split at h
    · cases h
    · split at h
      · exact h
      · cases h

theorem wrapNamesFrom_nil : wrapNamesFrom names before [] = [] := by
  rw [wrapNamesFrom]

theorem wrapNamesFrom_of_name (h : nameAt? names before cs = some (name, after)) :
    wrapNamesFrom names before cs =
      fieldReference name ++ wrapNamesFrom names (some ']') after := by
  cases cs with
  | nil => cases h
  | cons c cs =>
    simp only [nameAt?] at h
    split at h
    · cases h
    · next hc =>
      simp only [not_or] at hc
      rw [wrapNamesFrom, if_neg (by simp [hc]), if_neg hc.2.2]
      split
      · next h' =>
        rw [h] at h'
        cases h'
        rfl
      · next h' => simp [h] at h'

/-- The walk goes on from the last character copied: where that is not the closing one, nothing is
left to walk through. -/
theorem wrapNamesFrom_of_none (h : nameAt? names before (c :: cs) = none) :
    wrapNamesFrom names before (c :: cs) =
      (part (c :: cs)).1 ++ wrapNamesFrom names (part (c :: cs)).1.getLast? (part (c :: cs)).2 := by
  rw [wrapNamesFrom]
  by_cases hquote : c = '\x22' ∨ c = '\x27'
  · rw [if_pos hquote, part_quote hquote, List.getLast?_cons]
    rcases getLast?_splitBehind c cs with hnil | hlast
    · simp only [hnil, wrapNamesFrom_nil]
    · simp only [hlast, Option.getD_some]
  rw [if_neg hquote]
  by_cases hopen : c = '['
  · subst hopen
    rw [if_pos rfl, part_open, List.getLast?_cons]
    rcases getLast?_splitGroup 1 cs with hnil | hlast
    · simp only [hnil, wrapNamesFrom_nil]
    · simp only [hlast, Option.getD_some]
  · have hc : ¬ (c = '\x22' ∨ c = '\x27' ∨ c = '[') := by
      rw [← or_assoc]
      exact not_or.2 ⟨hquote, hopen⟩
    rw [nameAt?, if_neg hc] at h
    rw [if_neg hopen, part_plain hquote hopen]
    split
    · next h' => simp [h] at h'
    · rfl

/-- What holds of the empty text, of a text behind a name and of a text behind a part copied holds
of every text. -/
theorem wrapNamesFrom_induction (names : List (List Char)) {P : Option Char → List Char → Prop}
    (nil : ∀ before, P before [])
    (name : ∀ before cs name after, nameAt? names before cs = some (name, after) →
      P (some ']') after → P before cs)
    (copy : ∀ before c cs, nameAt? names before (c :: cs) = none →
      P (part (c :: cs)).1.getLast? (part (c :: cs)).2 → P before (c :: cs))
    (before : Option Char) (cs : List Char) : P before cs := by
  induction hn : cs.length using Nat.strong_induction_on generalizing before cs with
  | _ n ih =>
    subst hn
    cases cs with
    | nil => exact nil before
    | cons c cs =>
      cases h : nameAt? names before (c :: cs) with
      | none => exact copy _ _ _ h (ih _ (length_part c cs) _ _ rfl)
      | some found =>
        obtain ⟨n, after⟩ := found
        exact name _ _ _ _ h (ih _ (nameHere?_length (nameHere?_of_nameAt? h)) _ _ rfl)

end Walk

/-- Nothing stands here that could be wrapped: all of the text is copied, part by part. -/
inductive Settled (names : List (List Char)) : (before : Option Char) → List Char → Prop where
  | nil {before} : Settled names before []
  | copy {before c cs} : nameAt? names before (c :: cs) = none →
      Settled names (part (c :: cs)).1.getLast? (part (c :: cs)).2 → Settled names before (c :: cs)

theorem wrapNamesFrom_of_settled {names : List (List Char)} {before : Option Char} {cs : List Char}
    (h : Settled names before cs) : wrapNamesFrom names before cs = cs := by
  induction h with
  | nil => exact wrapNamesFrom_nil
  | copy hnone _ ih => rw [wrapNamesFrom_of_none hnone, ih, part_append]

section Name

variable {names : List (List Char)} {before : Option Char} {c : Char}
  {cs name after x y : List Char}

theorem notMem_of_isWrappable (h : isWrappable name = true) : '[' ∉ name ∧ ']' ∉ name := by
  simp only [isWrappable, Bool.and_eq_true, Bool.not_eq_true', List.contains_eq_mem,
    decide_eq_false_iff_not] at h
  exact ⟨h.1.2, h.2⟩

theorem isSome_foldl_longerName (xs : List (List Char × List Char)) (b : List Char × List Char) :
    (xs.foldl longerName (some b)).isSome = true := by
  induction xs generalizing b with
  | nil => rfl
  | cons x xs ih =>
    simp only [List.foldl_cons, longerName]
    split
    · exact ih x
    · exact ih b

theorem nameHere?_eq_none_iff : nameHere? names cs = none ↔
    ∀ name ∈ names, ∀ after, cs = name ++ after → isWrappable name = true →
      mayEndName after = false := by
  have hempty : nameHere? names cs = none ↔ names.filterMap (wholeName? cs) = [] := by
    unfold nameHere?
    cases names.filterMap (wholeName? cs) with
    | nil => simp
    | cons x xs =>
      have hsome := isSome_foldl_longerName xs x
      refine iff_of_false (fun hnone => ?_) (List.cons_ne_nil x xs)
      rw [List.foldl_cons, longerName] at hnone
      simp [hnone] at hsome
  rw [hempty, List.filterMap_eq_nil_iff]
  constructor
  · intro h name hname after hcs hwrap
    by_contra hend
    have hwhole := wholeName?_eq_some_iff.2 ⟨rfl, hcs, hwrap, by simpa using hend⟩
    rw [h name hname] at hwhole
    cases hwhole
  · intro h name hname
    rw [Option.eq_none_iff_forall_not_mem]
    rintro ⟨n, after⟩ hwhole
    obtain ⟨rfl, hcs, hwrap, hend⟩ := wholeName?_eq_some_iff.1 hwhole
    simp [h n hname after hcs hwrap] at hend

theorem mayStartName_of_isNameChar (h : before.any Text.isNameChar = true) :
    mayStartName before = false := by
  cases before with
  | none => cases h
  | some c =>
    have hc : Text.isNameChar c = true := h
    simp [mayStartName, hc]

theorem mayEndName_iff : mayEndName cs = true ↔
    (∀ c ∈ cs.head?, Text.isNameChar c = false ∧ c ≠ '!') ∧
      (Text.trimStart cs).head? ≠ some '(' := by
  unfold mayEndName
  cases cs <;> simp

theorem nameAt?_eq_some_iff : nameAt? names before (c :: cs) = some (name, after) ↔
    c ∉ ['\x22', '\x27', '['] ∧ mayStartName before = true ∧
      nameHere? names (c :: cs) = some (name, after) := by
  unfold nameAt?
  simp only [List.mem_cons, List.not_mem_nil, or_false]
  split
  · next hc => simp [hc]
  · next hc =>
    split
    · next hstart => simp [hc, hstart]
    · next hstart => simp [hstart]

end Name

/-- The text begins and ends with a character of a word. -/
def Wordlike (name : List Char) : Prop :=
  name.head?.any Text.isNameChar = true ∧ name.getLast?.any Text.isNameChar = true

instance (name : List Char) : Decidable (Wordlike name) :=
  inferInstanceAs (Decidable (_ ∧ _))

section Wrapped

variable {names : List (List Char)} {before : Option Char} {c : Char}
  {cs name after x y : List Char}

theorem nameAt?_eq_none (hnames : ∀ n ∈ names, Wordlike n) (hc : Text.isNameChar c = false) :
    nameAt? names before (c :: cs) = none := by
  rw [Option.eq_none_iff_forall_not_mem]
  rintro ⟨n, after⟩ h
  obtain ⟨-, -, hhere⟩ := nameAt?_eq_some_iff.1 h
  obtain ⟨hn, hcs, hwrap, -⟩ := nameHere?_spec hhere
  have hword := (hnames n hn).1
  cases n with
  | nil => cases hword
  | cons d n =>
    obtain ⟨rfl, -⟩ := List.cons.inj hcs
    simp [hc] at hword

theorem wrapNamesFrom_cons (hnames : ∀ n ∈ names, Wordlike n) (hc : Text.isNameChar c = false)
    (hplain : c ∉ ['\x22', '\x27', '[']) :
    wrapNamesFrom names before (c :: cs) = c :: wrapNamesFrom names (some c) cs := by
  simp only [List.mem_cons, List.not_mem_nil, or_false, ← or_assoc, not_or] at hplain
  rw [wrapNamesFrom_of_none (nameAt?_eq_none hnames hc),
    part_plain (by simpa using hplain.1) hplain.2]
  rfl

/-- A reference is settled: its at sign begins no name, and behind it is a bracket group. -/
theorem Settled.fieldReference (hnames : ∀ n ∈ names, Wordlike n)
    (hname : isWrappable name = true) (h : Settled names (some ']') x) :
    Settled names before (fieldReference name ++ x) := by
  obtain ⟨hopen, hclose⟩ := notMem_of_isWrappable hname
  have htext : Formula.fieldReference name ++ x = '@' :: '[' :: (name ++ ']' :: x) := by
    simp [Formula.fieldReference]
  have hat : part ('@' :: '[' :: (name ++ ']' :: x)) = (['@'], '[' :: (name ++ ']' :: x)) := rfl
  have hgroup : part ('[' :: (name ++ ']' :: x)) = ('[' :: (name ++ [']']), x) := by
    rw [part_open, splitGroup_body (.of_notMem hopen hclose)]
  have hlast : ('[' :: (name ++ [']'])).getLast? = some ']' := by
    simp [List.getLast?_cons]
  rw [htext]
  apply Settled.copy (nameAt?_eq_none hnames (by decide))
  rw [hat]
  apply Settled.copy rfl
  rwa [hgroup, hlast]

/-- A piece of the wrapped text that holds no bracket and ends in a word stands in the source too,
at the end of the walk or where copying goes on. -/
theorem exists_of_wrapNamesFrom (h : wrapNamesFrom names before cs = x ++ y) (hopen : '[' ∉ x)
    (hlast : x.getLast?.all Text.isNameChar = true) :
    ∃ w before' rest, cs = x ++ (w ++ rest) ∧ y = w ++ wrapNamesFrom names before' rest ∧
      (w = [] → before' = x.getLast?.or before) := by
  induction before, cs using wrapNamesFrom_induction names generalizing x with
  | nil before =>
    rw [wrapNamesFrom_nil] at h
    obtain ⟨rfl, rfl⟩ := List.append_eq_nil_iff.1 h.symm
    exact ⟨[], before, [], rfl, wrapNamesFrom_nil.symm, fun _ => rfl⟩
  | name before cs name after hname ih =>
    match x with
    | [] => exact ⟨[], before, cs, rfl, h.symm, fun _ => rfl⟩
    | [d] =>
      rw [wrapNamesFrom_of_name hname] at h
      obtain ⟨rfl, -⟩ := List.cons.inj h
      exact absurd hlast (by decide)
    | d :: e :: x =>
      rw [wrapNamesFrom_of_name hname] at h
      obtain ⟨rfl, -⟩ := List.cons.inj (List.cons.inj h).2
      exact absurd (List.mem_cons_of_mem d List.mem_cons_self) hopen
  | copy before c cs hnone ih =>
    rw [wrapNamesFrom_of_none hnone] at h
    obtain ⟨front, hfront⟩ := exists_part c cs
    rcases List.append_eq_append_iff.1 h with ⟨z, rfl, hz⟩ | ⟨w, hw, rfl⟩
    · have hword : z.getLast?.all Text.isNameChar = true := by
        cases hd : z.getLast? with
        | none => rfl
        | some d => simpa [List.getLast?_append, hd] using hlast
      obtain ⟨w, before', rest, hrest, hy, hbefore⟩ :=
        ih hz (fun hmem => hopen (List.mem_append_right _ hmem)) hword
      refine ⟨w, before', rest, ?_, hy, fun hw => ?_⟩
      · rw [List.append_assoc, ← hrest, part_append]
      · rw [hbefore hw, ← List.getLast?_append, hfront, List.cons_append, List.getLast?_cons,
          Option.some_or]
    · refine ⟨w, _, (part (c :: cs)).2, ?_, rfl, ?_⟩
      · rw [← List.append_assoc, ← hw, part_append]
      · rintro rfl
        rw [List.append_nil] at hw
        rw [← hw, hfront, List.getLast?_cons, Option.some_or]

/-- An opening parenthesis behind blanks stays there. -/
theorem head?_trimStart_wrapNamesFrom (hnames : ∀ n ∈ names, Wordlike n)
    (h : (Text.trimStart (x ++ cs)).head? = some '(') :
    (Text.trimStart (x ++ wrapNamesFrom names before cs)).head? = some '(' := by
  induction x with
  | cons c x ih =>
    rw [List.cons_append, Text.trimStart_cons] at h ⊢
    by_cases hc : Text.isBlank c = true
    · rw [if_pos hc] at h ⊢
      exact ih h
    · rw [if_neg hc] at h ⊢
      exact h
  | nil =>
    rw [List.nil_append] at h ⊢
    induction cs generalizing before with
    | nil => cases h
    | cons c cs ih =>
      rw [Text.trimStart_cons] at h
      split at h
      · next hc =>
        have hplain : c ∉ ['\x22', '\x27', '['] := by
          have hnone : (['\x22', '\x27', '['].any Text.isBlank) = false := by decide
          intro hmem
          exact List.any_eq_false.1 hnone c hmem hc
        rw [wrapNamesFrom_cons hnames (Text.isNameChar_of_isBlank hc) hplain, Text.trimStart_cons,
          if_pos hc]
        exact ih h
      · obtain rfl : c = '(' := by simpa using h
        rw [wrapNamesFrom_cons hnames (by decide) (by decide)]
        rfl

/-- Where a name may end in the wrapped text, it may end in the source, unless it would run into a
name that is wrapped. -/
theorem mayEndName_of_wrapNamesFrom (hnames : ∀ n ∈ names, Wordlike n)
    (hbefore : x = [] → mayStartName before = false)
    (h : mayEndName (x ++ wrapNamesFrom names before cs) = true) : mayEndName (x ++ cs) = true := by
  have hhead : (x ++ wrapNamesFrom names before cs).head? = (x ++ cs).head? := by
    cases x with
    | cons c x => rfl
    | nil =>
      cases cs with
      | nil => rw [wrapNamesFrom_nil]
      | cons c cs =>
        have hnone : nameAt? names before (c :: cs) = none := by
          simp [nameAt?, hbefore rfl]
        obtain ⟨front, hfront⟩ := exists_part c cs
        simp [wrapNamesFrom_of_none hnone, hfront]
  obtain ⟨hword, hparen⟩ := mayEndName_iff.1 h
  rw [hhead] at hword
  exact mayEndName_iff.2 ⟨hword, fun hopen => hparen (head?_trimStart_wrapNamesFrom hnames hopen)⟩

/-- Wrapping what follows a character makes no name stand there. -/
theorem nameHere?_wrapNamesFrom (hnames : ∀ n ∈ names, Wordlike n)
    (h : nameHere? names (c :: cs) = none) :
    nameHere? names (c :: wrapNamesFrom names (some c) cs) = none := by
  rw [nameHere?_eq_none_iff] at h ⊢
  intro name hname after hcs hwrap
  by_contra hend
  rw [Bool.not_eq_false] at hend
  obtain ⟨-, hword⟩ := hnames name hname
  cases name with
  | nil => cases hword
  | cons d name =>
    obtain ⟨rfl, htail⟩ := List.cons.inj hcs
    have hopen : '[' ∉ name := by
      intro hmem
      simp [isWrappable, hmem] at hwrap
    have hlast : name.getLast?.all Text.isNameChar = true := by
      cases hname : name.getLast? with
      | none => rfl
      | some e => simpa [List.getLast?_cons, hname] using hword
    obtain ⟨w, before', rest, rfl, rfl, hbefore⟩ := exists_of_wrapNamesFrom htail hopen hlast
    -- A name cannot begin right behind this one, which ends in a word.
    have hinside : w = [] → mayStartName before' = false := by
      intro hw
      apply mayStartName_of_isNameChar
      rwa [hbefore hw, Option.or_some, ← List.getLast?_cons]
    have hsource := h (c :: name) hname (w ++ rest) rfl hwrap
    rw [mayEndName_of_wrapNamesFrom hnames hinside hend] at hsource
    cases hsource

/-- What is copied is copied again. -/
theorem nameAt?_wrapNamesFrom (hnames : ∀ n ∈ names, Wordlike n)
    (h : nameAt? names before (c :: cs) = none) :
    nameAt? names before ((part (c :: cs)).1 ++
      wrapNamesFrom names (part (c :: cs)).1.getLast? (part (c :: cs)).2) = none := by
  by_cases hc : c = '\x22' ∨ c = '\x27' ∨ c = '['
  · obtain ⟨front, hfront⟩ := exists_part c cs
    rw [hfront, List.cons_append, nameAt?, if_pos hc]
  · have hquote : ¬ (c = '\x22' ∨ c = '\x27') := fun hq => hc (or_assoc.1 (.inl hq))
    have hopen : c ≠ '[' := fun ho => hc (.inr (.inr ho))
    rw [part_plain hquote hopen, List.singleton_append, nameAt?, if_neg hc]
    rw [nameAt?, if_neg hc] at h
    split
    · next hstart =>
      rw [if_pos hstart] at h
      exact nameHere?_wrapNamesFrom hnames h
    · rfl

theorem settled_wrapNamesFrom (hnames : ∀ n ∈ names, Wordlike n) :
    Settled names before (wrapNamesFrom names before cs) := by
  induction before, cs using wrapNamesFrom_induction names with
  | nil before =>
    rw [wrapNamesFrom_nil]
    exact .nil
  | name before cs name after h ih =>
    rw [wrapNamesFrom_of_name h]
    obtain ⟨-, -, hwrap, -⟩ := nameHere?_spec (nameHere?_of_nameAt? h)
    exact ih.fieldReference hnames hwrap
  | copy before c cs h ih =>
    have hrest : (part (c :: cs)).2 = [] →
        wrapNamesFrom names (part (c :: cs)).1.getLast? (part (c :: cs)).2 = [] := by
      intro hnil
      rw [hnil, wrapNamesFrom_nil]
    have hagain := nameAt?_wrapNamesFrom hnames h
    have hstable := part_stable hrest
    rw [wrapNamesFrom_of_none h]
    obtain ⟨front, hfront⟩ := exists_part c cs
    rw [hfront, List.cons_append] at hagain hstable
    rw [hfront] at ih ⊢
    rw [List.cons_append]
    apply Settled.copy hagain
    rwa [hstable]

end Wrapped

/-- Wrapping leaves no name that could be wrapped, so wrapping again changes nothing. -/
theorem wrapNames_wrapNames {names : List String} (h : ∀ n ∈ names, Wordlike n.toList)
    (formula : String) :
    Settled (names.map String.toList) none (wrapNames names formula).toList ∧
      wrapNames names (wrapNames names formula) = wrapNames names formula := by
  have hnames : ∀ n ∈ names.map String.toList, Wordlike n := by
    simpa using h
  have hsettled : Settled (names.map String.toList) none (wrapNames names formula).toList := by
    unfold wrapNames
    rw [String.toList_ofList]
    exact settled_wrapNamesFrom hnames
  refine ⟨hsettled, ?_⟩
  rw [wrapNames, wrapNamesFrom_of_settled hsettled, String.ofList_toList]

/-- A name may hold a quote, be the start of another or never be wrapped, and the formula may leave
a quotation open. -/
theorem wrapNames_wrapNames_quotation :
    (∀ n ∈ ["Unit", "Unit price", "it's", "A]B"], Wordlike n.toList) ∧
      wrapNames ["Unit", "Unit price", "it's", "A]B"]
          (wrapNames ["Unit", "Unit price", "it's", "A]B"] "=Unit price*Unit+it's-A]B&'Unit") =
        wrapNames ["Unit", "Unit price", "it's", "A]B"] "=Unit price*Unit+it's-A]B&'Unit" := by
  have hnames : ∀ n ∈ ["Unit", "Unit price", "it's", "A]B"], Wordlike n.toList := by decide
  exact ⟨hnames, (wrapNames_wrapNames hnames _).2⟩

end WorkbookPlan.Formula
