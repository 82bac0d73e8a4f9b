import WorkbookPlan.Text.Basic
import WorkbookPlan.Text.Word

/-! Structured references: a field name in a logical formula is wrapped as the value of that field
in the same row. -/
namespace WorkbookPlan.Formula

/-- Split behind the first `q`, or at the end if there is none. -/
def splitBehind (q : Char) : List Char → List Char × List Char
  | [] => ([], [])
  | c :: cs =>
    if c = q then ([c], cs)
    else
      let (l, r) := splitBehind q cs
      (c :: l, r)

/-- Split behind the bracket that closes the last of `depth` open ones, or at the end. -/
def splitGroup : Nat → List Char → List Char × List Char
  | _, [] => ([], [])
  | depth, c :: cs =>
    if c = ']' ∧ depth = 1 then ([c], cs)
    else
      let deeper := if c = '[' then depth + 1 else if c = ']' then depth - 1 else depth
      let (l, r) := splitGroup deeper cs
      (c :: l, r)

theorem splitBehind_append (q : Char) (cs : List Char) :
    (splitBehind q cs).1 ++ (splitBehind q cs).2 = cs := by
  induction cs with
  | nil => rfl
  | cons c cs ih =>
    simp only [splitBehind]
    split <;> simp_all

theorem splitGroup_append (depth : Nat) (cs : List Char) :
    (splitGroup depth cs).1 ++ (splitGroup depth cs).2 = cs := by
  induction cs generalizing depth with
  | nil => rfl
  | cons c cs ih =>
    simp only [splitGroup]
    split
    · rfl
    · simp [ih]

theorem length_splitBehind_le (q : Char) (cs : List Char) :
    (splitBehind q cs).2.length ≤ cs.length := by
  have := congrArg List.length (splitBehind_append q cs)
  simp at this
  omega

theorem length_splitGroup_le (depth : Nat) (cs : List Char) :
    (splitGroup depth cs).2.length ≤ cs.length := by
  have := congrArg List.length (splitGroup_append depth cs)
  simp at this
  omega

/-- A name can be wrapped if it is not empty and holds no bracket: it would not close where the
name ends. -/
def isWrappable (name : List Char) : Bool :=
  !name.isEmpty && !name.contains '[' && !name.contains ']'

/-- A name may start here. What stands behind a sheet, an at sign or a point is someone else's. -/
def mayStartName (before : Option Char) : Bool :=
  match before with
  | none => true
  | some c => !Text.isNameChar c && c != '!' && c != '@' && c != '.'

/-- A name may end before this text. A name before an exclamation mark is a sheet, one before an
opening parenthesis a function. -/
def mayEndName (after : List Char) : Bool :=
  (match after with
    | [] => true
    | c :: _ => !Text.isNameChar c && c != '!')
    && (Text.trimStart after).head? != some '('

def wholeName? (cs name : List Char) : Option (List Char × List Char) :=
  match Text.afterLead? name cs with
  | none => none
  | some after => if isWrappable name && mayEndName after then some (name, after) else none

/-- The longer of two names; of equal ones the earlier. -/
def longerName (best : Option (List Char × List Char)) (x : List Char × List Char) :
    Option (List Char × List Char) :=
  match best with
  | none => some x
  | some b => if b.1.length < x.1.length then some x else some b

def nameHere? (names : List (List Char)) (cs : List Char) : Option (List Char × List Char) :=
  (names.filterMap (wholeName? cs)).foldl longerName none

theorem mem_of_foldl_longerName {xs : List (List Char × List Char)}
    {best : Option (List Char × List Char)} {x : List Char × List Char}
    (h : xs.foldl longerName best = some x) : best = some x ∨ x ∈ xs := by
  induction xs generalizing best with
  | nil => exact .inl h
  | cons y ys ih =>
    rcases ih h with h | h
    · cases best with
      | none =>
        cases h
        exact .inr List.mem_cons_self
      | some b =>
        simp only [longerName] at h
        split at h
        · cases h
          exact .inr List.mem_cons_self
        · exact .inl h
    · exact .inr (List.mem_cons_of_mem _ h)

theorem wholeName?_eq_some_iff {cs name n after : List Char} :
    wholeName? cs name = some (n, after) ↔
      n = name ∧ cs = name ++ after ∧ isWrappable name = true ∧ mayEndName after = true := by
  simp only [wholeName?]
  split
  · next h =>
    refine iff_of_false (by simp) fun ⟨_, hcs, _⟩ => ?_
    rw [Text.afterLead?_eq_some_iff.2 hcs] at h
    cases h
  · next after' h =>
    have hcs := Text.afterLead?_eq_some_iff.1 h
    constructor
    · intro h'
      split at h'
      · next hc =>
        cases h'
        exact ⟨rfl, hcs, by simpa using hc⟩
      · cases h'
    · rintro ⟨rfl, hcs', hw, he⟩
      have : after' = after := List.append_cancel_left (hcs.symm.trans hcs')
      subst this
      simp [hw, he]

theorem nameHere?_spec {names : List (List Char)} {cs name after : List Char}
    (h : nameHere? names cs = some (name, after)) :
    name ∈ names ∧ cs = name ++ after ∧ isWrappable name = true ∧ mayEndName after = true := by
  rcases mem_of_foldl_longerName h with h | h
  · cases h
  · obtain ⟨n, hn, h⟩ := List.mem_filterMap.1 h
    obtain ⟨rfl, hcs, hw, he⟩ := wholeName?_eq_some_iff.1 h
    exact ⟨hn, hcs, hw, he⟩

def fieldReference (name : List Char) : List Char :=
  '@' :: '[' :: name ++ [']']

theorem nameHere?_length {names : List (List Char)} {cs name after : List Char}
    (h : nameHere? names cs = some (name, after)) : after.length < cs.length := by
  obtain ⟨_, rfl, hw, _⟩ := nameHere?_spec h
  have hne : name ≠ [] := by
    rintro rfl
    simp [isWrappable] at hw
  have := List.length_pos_iff.2 hne
  simp only [List.length_append]
  omega

/-- One walk from left to right. Quoted text and bracket groups are copied, so that wrapped names
are left alone. -/
def wrapNamesFrom (names : List (List Char)) (before : Option Char) (cs : List Char) : List Char :=
  match cs with
  | [] => []
  | c :: rest =>
    if c = '\x22' ∨ c = '\x27' then
      c :: (splitBehind c rest).1 ++ wrapNamesFrom names (some c) (splitBehind c rest).2
    else if c = '[' then
      c :: (splitGroup 1 rest).1 ++ wrapNamesFrom names (some ']') (splitGroup 1 rest).2
    else
      match _h : if mayStartName before then nameHere? names (c :: rest) else none with
      | some (name, after) => fieldReference name ++ wrapNamesFrom names (some ']') after
      | none => c :: wrapNamesFrom names (some c) rest
termination_by cs.length
decreasing_by
  · have := length_splitBehind_le c rest
    simp only [List.length_cons]
    omega
  · have := length_splitGroup_le 1 rest
    simp only [List.length_cons]
    omega
  · split at _h
    · exact nameHere?_length _h
    · cases _h
  · simp

def wrapNames (names : List String) (formula : String) : String :=
  String.ofList (wrapNamesFrom (names.map String.toList) none formula.toList)

end WorkbookPlan.Formula
