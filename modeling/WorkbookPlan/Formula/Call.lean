import WorkbookPlan.Text.Basic
import WorkbookPlan.Text.Case

/-! Function calls in formulas, and the call that guards a formula against errors. -/
namespace WorkbookPlan.Formula

/-- The arguments of a call: the rest of the current one, those behind it, and the text behind the
closing parenthesis. -/
structure Args where
  current : List Char
  later : List (List Char)
  rest : List Char
  deriving DecidableEq, Repr

namespace Args

def push (c : Char) (a : Args) : Args :=
  { a with current := c :: a.current }

end Args

/-- Cut a call at the commas of its own level, up to the parenthesis that closes it. Parentheses and
braces open a level, and double quotes hide what is between them. -/
def splitArgs : (depth : Nat) → (quoted : Bool) → List Char → Option Args
  | _, _, [] => none
  | depth, quoted, c :: cs =>
    if c = '\x22' then (splitArgs depth (!quoted) cs).map (·.push c)
    else if quoted then (splitArgs depth quoted cs).map (·.push c)
    else if c = '(' ∨ c = '\x7b' then (splitArgs (depth + 1) quoted cs).map (·.push c)
    else if c = ')' ∧ depth = 0 then some ⟨[], [], cs⟩
    else if c = ')' ∨ c = '\x7d' then (splitArgs (depth - 1) quoted cs).map (·.push c)
    else if c = ',' ∧ depth = 0 then
      (splitArgs depth quoted cs).map fun a => ⟨[], a.current :: a.later, a.rest⟩
    else (splitArgs depth quoted cs).map (·.push c)

/-- The arguments and the rest together are shorter than the text. -/
theorem length_splitArgs {depth : Nat} {quoted : Bool} {cs : List Char} {a : Args}
    (h : splitArgs depth quoted cs = some a) :
    a.current.length < cs.length ∧ a.rest.length < cs.length
      ∧ ∀ x ∈ a.later, x.length < cs.length := by
  induction cs generalizing depth quoted a with
  | nil => simp [splitArgs] at h
  | cons c cs ih =>
    have step : ∀ {d : Nat} {q : Bool}, (splitArgs d q cs).map (·.push c) = some a →
        a.current.length < (c :: cs).length ∧ a.rest.length < (c :: cs).length
          ∧ ∀ x ∈ a.later, x.length < (c :: cs).length := by
      intro d q hs
      obtain ⟨b, hb, rfl⟩ := Option.map_eq_some_iff.1 hs
      obtain ⟨h₁, h₂, h₃⟩ := ih hb
      refine ⟨?_, ?_, fun x hx => ?_⟩
      · simpa [Args.push] using h₁
      · simp only [Args.push, List.length_cons]; omega
      · have := h₃ x hx
        simp only [List.length_cons]; omega
    rw [splitArgs] at h
    split at h
    · exact step h
    split at h
    · exact step h
    split at h
    · exact step h
    split at h
    · cases h
      simp
    split at h
    · exact step h
    split at h
    · obtain ⟨b, hb, rfl⟩ := Option.map_eq_some_iff.1 h
      obtain ⟨h₁, h₂, h₃⟩ := ih hb
      refine ⟨by simp, by simp only [List.length_cons]; omega, fun x hx => ?_⟩
      rcases List.mem_cons.1 hx with rfl | hx
      · simp only [List.length_cons]; omega
      · have := h₃ x hx
        simp only [List.length_cons]; omega
    · exact step h

/-- What stands behind a function's name and its parenthesis, in any letter case. -/
def afterCall? (name cs : List Char) : Option (List Char) :=
  (Text.afterLead? name (Text.asciiUpper (cs.take name.length))).map fun _ => cs.drop name.length

theorem length_afterCall? {name cs after : List Char} (h : afterCall? name cs = some after) :
    after.length ≤ cs.length := by
  obtain ⟨_, _, rfl⟩ := Option.map_eq_some_iff.1 h
  simp

/-- The expression of a formula: no blanks around it, no leading equals sign. -/
def expression (cs : List Char) : List Char :=
  match Text.trim cs with
  | '=' :: cs => Text.trim cs
  | cs => Text.trim cs

def isGuarded (e : List Char) : Bool :=
  match afterCall? "IFERROR(".toList e with
  | none => false
  | some cs => (splitArgs 0 false cs).any (·.rest.isEmpty)

/-- Empty text in place of an error value. A guarded formula stays as it is. -/
def guardChars (cs : List Char) : List Char :=
  let e := expression cs
  if isGuarded e then cs
  else "=IFERROR(".toList ++ e ++ [',', ' ', '\x22', '\x22', ')']

def guard (formula : String) : String :=
  String.ofList (guardChars formula.toList)

end WorkbookPlan.Formula
