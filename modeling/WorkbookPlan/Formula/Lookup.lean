import WorkbookPlan.Formula.Call
import WorkbookPlan.Text.Basic
import WorkbookPlan.Text.Word

/-! Lookup functions: recognising them, and replacing the newest by two that every host has. -/
namespace WorkbookPlan.Formula

def isLookup (formula : String) : Bool :=
  let capitals := Text.upper formula.toList
  let calls (name : String) := Text.contains name.toList capitals
  calls "XLOOKUP(" || calls "VLOOKUP(" || calls "HLOOKUP(" || (calls "INDEX(" && calls "MATCH(")

/-- The first three arguments of a lookup call and the text behind it. The call's name must not be
the tail of a longer one. -/
def lookupCall? (before : Option Char) (cs : List Char) :
    Option (List Char × List Char × List Char × List Char) :=
  if before.any Text.isNameChar then none
  else
    match afterCall? "XLOOKUP(".toList cs with
    | none => none
    | some inner =>
      match splitArgs 0 false inner with
      | some ⟨key, within :: result :: _, rest⟩ =>
        some (Text.trim key, Text.trim within, Text.trim result, rest)
      | _ => none

theorem length_trim_le (cs : List Char) : (Text.trim cs).length ≤ cs.length := by
  have drop_le : ∀ (l : List Char), (l.dropWhile Text.isBlank).length ≤ l.length :=
    fun l => (List.dropWhile_sublist _).length_le
  have h₁ := drop_le cs
  have h₂ := drop_le (Text.trimStart cs).reverse
  simp only [Text.trim, Text.trimEnd, Text.dropEndWhile, List.length_reverse] at *
  simp only [Text.trimStart] at *
  omega

theorem length_lookupCall? {before : Option Char} {cs key within result rest : List Char}
    (h : lookupCall? before cs = some (key, within, result, rest)) :
    key.length < cs.length ∧ within.length < cs.length ∧ result.length < cs.length
      ∧ rest.length < cs.length := by
  simp only [lookupCall?] at h
  split at h
  · cases h
  · split at h
    · cases h
    · next inner hi =>
      split at h
      · next k w r more rest' hs =>
        cases h
        have hi := length_afterCall? hi
        obtain ⟨h₁, h₂, h₃⟩ := length_splitArgs hs
        have hw := h₃ w (by simp)
        have hr := h₃ r (by simp)
        have := length_trim_le k
        have := length_trim_le w
        have := length_trim_le r
        simp only at h₁ h₂
        omega
      · cases h

/-- Walk from left to right and replace each call, those inside arguments too, telling whether there
was one. -/
def replaceLookups (before : Option Char) (cs : List Char) : List Char × Bool :=
  match cs with
  | [] => ([], false)
  | c :: rest =>
    match _h : lookupCall? before (c :: rest) with
    | some (key, within, result, after) =>
      let tail := (replaceLookups (some ')') after).1
      ("INDEX(".toList ++ (replaceLookups none result).1 ++ ", MATCH(".toList
        ++ (replaceLookups none key).1 ++ ", ".toList ++ (replaceLookups none within).1
        ++ ", 0))".toList ++ tail, true)
    | none =>
      let (out, changed) := replaceLookups (some c) rest
      (c :: out, changed)
termination_by cs.length
decreasing_by
  · exact (length_lookupCall? _h).2.2.2
  · exact (length_lookupCall? _h).2.2.1
  · exact (length_lookupCall? _h).1
  · exact (length_lookupCall? _h).2.1
  · simp

def withoutLookups? (formula : String) : Option String :=
  let (out, changed) := replaceLookups none formula.toList
  if changed then some (String.ofList out) else none

end WorkbookPlan.Formula
