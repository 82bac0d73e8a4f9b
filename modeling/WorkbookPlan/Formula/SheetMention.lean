import WorkbookPlan.Text.Letter

/-! String literals in formulas, and the sheets that a formula names in front of an exclamation
mark. -/
namespace WorkbookPlan.Formula

/-- Blank out literal bodies, starting outside or inside a literal. A doubled quote inside a literal
is a part of its body. -/
def blankLiteralsFrom : Bool → List Char → List Char
  | _, [] => []
  | false, c :: cs =>
    c :: blankLiteralsFrom (c == '\x22') cs
  | true, '\x22' :: '\x22' :: cs => ' ' :: ' ' :: blankLiteralsFrom true cs
  | true, '\x22' :: cs => '\x22' :: blankLiteralsFrom false cs
  | true, _ :: cs => ' ' :: blankLiteralsFrom true cs

def blankLiterals (cs : List Char) : List Char :=
  blankLiteralsFrom false cs

def startsPlainName (c : Char) : Bool :=
  Text.isLetter c || c == '_'

def isPlainNameChar (c : Char) : Bool :=
  Text.isLetterOrNumber c || c == '_'

def splitPlainName : List Char → List Char × List Char
  | [] => ([], [])
  | c :: cs =>
    if startsPlainName c then (c :: cs.takeWhile isPlainNameChar, cs.dropWhile isPlainNameChar)
    else ([], c :: cs)

/-- A name in single quotes behind the first of them, and the text behind the exclamation mark that
must follow. -/
def quotedSheet? (cs : List Char) : Option (List Char × List Char) :=
  match cs.takeWhile (· != '\x27'), cs.dropWhile (· != '\x27') with
  | c :: name, _ :: '!' :: rest => some (c :: name, rest)
  | _, _ => none

def sheetHere? (cs : List Char) : Option (List Char × List Char) :=
  match cs with
  | [] => none
  | c :: rest =>
    if c = '\x27' then quotedSheet? rest
    else
      match splitPlainName (c :: rest) with
      | (d :: name, '!' :: rest) => some (d :: name, rest)
      | _ => none

theorem length_dropWhile_le {α : Type _} (p : α → Bool) (cs : List α) :
    (cs.dropWhile p).length ≤ cs.length :=
  (List.dropWhile_sublist p).length_le

theorem length_splitPlainName_le (cs : List Char) :
    (splitPlainName cs).2.length ≤ cs.length := by
  cases cs with
  | nil => exact Nat.le_refl _
  | cons c cs =>
    simp only [splitPlainName]
    split
    · have := length_dropWhile_le isPlainNameChar cs
      simp only [List.length_cons]
      omega
    · exact Nat.le_refl _

theorem length_quotedSheet? {cs name rest : List Char}
    (h : quotedSheet? cs = some (name, rest)) : rest.length < cs.length := by
  simp only [quotedSheet?] at h
  split at h
  · next hd =>
    cases h
    have := length_dropWhile_le (· != '\x27') cs
    rw [hd] at this
    simp only [List.length_cons] at this
    omega
  · cases h

theorem length_sheetHere? {cs name rest : List Char}
    (h : sheetHere? cs = some (name, rest)) : rest.length < cs.length := by
  cases cs with
  | nil => cases h
  | cons c cs =>
    simp only [sheetHere?] at h
    split at h
    · have := length_quotedSheet? h
      simp only [List.length_cons]
      omega
    · split at h
      · next hs =>
        cases h
        have := length_splitPlainName_le (c :: cs)
        rw [hs] at this
        simp only [List.length_cons] at this ⊢
        omega
      · cases h

/-- The text to go on with where no sheet is named: behind the whole plain name, if one stands here,
since a part of it is no name of its own. -/
def behindNoSheet (c : Char) (cs : List Char) : List Char :=
  if startsPlainName c then cs.dropWhile isPlainNameChar else cs

theorem length_behindNoSheet_le (c : Char) (cs : List Char) :
    (behindNoSheet c cs).length ≤ cs.length := by
  simp only [behindNoSheet]
  split
  · exact length_dropWhile_le _ cs
  · exact Nat.le_refl _

/-- The sheets that the text mentions, from left to right, each with the plain name behind its mark,
which may be empty. -/
def sheetMentions (cs : List Char) : List (String × String) :=
  match cs with
  | [] => []
  | c :: rest =>
    match _h : sheetHere? (c :: rest) with
    | some (sheet, after) =>
      (String.ofList sheet, String.ofList (splitPlainName after).1)
        :: sheetMentions (splitPlainName after).2
    | none => sheetMentions (behindNoSheet c rest)
termination_by cs.length
decreasing_by
  · have := length_sheetHere? _h
    have := length_splitPlainName_le after
    omega
  · have := length_behindNoSheet_le c rest
    simp only [List.length_cons]
    omega

end WorkbookPlan.Formula
