/-! Text as a list of characters: digits, blanks, searching and cutting. -/
namespace WorkbookPlan.Text

/-- Whether a code point is in a set, whose rising boundaries open and close it by turns. -/
def CodePoint.inside : List Nat → Nat → Bool
  | [], _ => false
  | b :: bs, n => if n < b then false else !inside bs n

def digit (c : Char) : Nat :=
  c.toNat - '0'.toNat

/-- The number of a word and the digits behind it. -/
def digitsBehind (word : Nat) (ds : List Char) : Nat :=
  ds.foldl (fun n c => n * 10 + digit c) word

def digitsValue (ds : List Char) : Nat :=
  digitsBehind 0 ds

/-- The characters of the property White_Space. -/
def isBlank (c : Char) : Bool :=
  let n := c.toNat
  (9 ≤ n && n ≤ 13) || n == 0x20 || n == 0x85 || n == 0xA0 || n == 0x1680
    || (0x2000 ≤ n && n ≤ 0x200A) || n == 0x2028 || n == 0x2029 || n == 0x202F || n == 0x205F
    || n == 0x3000

def dropEndWhile (p : Char → Bool) (cs : List Char) : List Char :=
  (cs.reverse.dropWhile p).reverse

def trimStart (cs : List Char) : List Char :=
  cs.dropWhile isBlank

def trimEnd (cs : List Char) : List Char :=
  dropEndWhile isBlank cs

def trim (cs : List Char) : List Char :=
  trimEnd (trimStart cs)

def trimmed (s : String) : String :=
  String.ofList (trim s.toList)

@[simp] theorem trim_nil : trim [] = [] := rfl

/-- What follows `lead` at the front of the text. -/
def afterLead? : (lead text : List Char) → Option (List Char)
  | [], text => some text
  | _ :: _, [] => none
  | l :: ls, c :: cs => if l = c then afterLead? ls cs else none

def contains (part : List Char) : List Char → Bool
  | [] => part.isEmpty
  | c :: cs => (afterLead? part (c :: cs)).isSome || contains part cs

/-- The two sides of the first `sep`. -/
def cutFirst? (sep : Char) : List Char → Option (List Char × List Char)
  | [] => none
  | c :: cs =>
    if c = sep then some ([], cs)
    else (cutFirst? sep cs).map fun (l, r) => (c :: l, r)

/-- The two sides of the last `sep`. -/
def cutLast? (sep : Char) : List Char → Option (List Char × List Char)
  | [] => none
  | c :: cs =>
    match cutLast? sep cs with
    | some (l, r) => some (c :: l, r)
    | none => if c = sep then some ([], cs) else none

theorem afterLead?_eq_some_iff {lead text rest : List Char} :
    afterLead? lead text = some rest ↔ text = lead ++ rest := by
  induction lead generalizing text with
  | nil => simp [afterLead?, eq_comm]
  | cons l ls ih =>
    cases text with
    | nil => simp [afterLead?]
    | cons c cs =>
      by_cases h : l = c
      · subst h
        simp [afterLead?, ih]
      · simp [afterLead?, h, Ne.symm h]

theorem contains_iff {part text : List Char} :
    contains part text = true ↔ ∃ a b, text = a ++ part ++ b := by
  induction text with
  | nil =>
    cases part <;> simp [contains]
  | cons c cs ih =>
    simp only [contains, Bool.or_eq_true, ih, Option.isSome_iff_exists, afterLead?_eq_some_iff]
    constructor
    · rintro (⟨b, h⟩ | ⟨a, b, h⟩)
      · exact ⟨[], b, by simpa using h⟩
      · exact ⟨c :: a, b, by simp [h]⟩
    · rintro ⟨a, b, h⟩
      cases a with
      | nil => exact .inl ⟨b, by simpa using h⟩
      | cons x a =>
        simp only [List.cons_append, List.cons.injEq] at h
        exact .inr ⟨a, b, h.2⟩

end WorkbookPlan.Text
