import Mathlib.Algebra.Group.Nat.Even
import Mathlib.Data.List.Infix
import WorkbookPlan.Formula.Call
import WorkbookPlan.Proofs.Formula.Call
import WorkbookPlan.Proofs.Text.Blank

/-! When a formula counts as guarded. The scan for the parenthesis that ends a call passes over a
balanced text as over nothing, so it finds the end of a guard behind every balanced expression, and
the end of a call in front of more text there and not at the end of the text. -/
namespace WorkbookPlan.Formula

def outside : (quoted : Bool) → List Char → List Char
  | _, [] => []
  | quoted, c :: cs =>
    if c = '\x22' then outside (!quoted) cs
    else if quoted then outside quoted cs
    else c :: outside quoted cs

def opens (c : Char) : Bool :=
  c == '(' || c == '\x7b'

def closes (c : Char) : Bool :=
  c == ')' || c == '\x7d'

/-- Nothing is closed that was not opened in the text or in front of it, where `depth` many are
open. -/
def StaysOpen (depth : Nat) (cs : List Char) : Prop :=
  ∀ p, p <+: cs → p.countP closes ≤ depth + p.countP opens

instance (depth : Nat) (cs : List Char) : Decidable (StaysOpen depth cs) :=
  decidable_of_iff (∀ p ∈ cs.inits, p.countP closes ≤ depth + p.countP opens)
    (forall_congr' fun p => by rw [List.mem_inits])

/-- Literals are closed, and outside them what is opened is closed and nothing is closed too early.
Parentheses and braces are counted together: a text in which both are paired is balanced, whether or
not the pairs cross. -/
structure Balanced (cs : List Char) : Prop where
  literals : cs.count '\x22' % 2 = 0
  staysOpen : StaysOpen 0 (outside false cs)
  closed : (outside false cs).countP closes = (outside false cs).countP opens

instance (cs : List Char) : Decidable (Balanced cs) :=
  decidable_of_iff (cs.count '\x22' % 2 = 0 ∧ StaysOpen 0 (outside false cs) ∧
      (outside false cs).countP closes = (outside false cs).countP opens)
    ⟨fun h => ⟨h.1, h.2.1, h.2.2⟩, fun h => ⟨h.literals, h.staysOpen, h.closed⟩⟩

def behindCall? (depth : Nat) (quoted : Bool) (cs : List Char) : Option (List Char) :=
  (splitArgs depth quoted cs).map Args.rest

section Scan

variable {depth d : Nat} {quoted q : Bool} {c : Char} {cs e args written : List Char}

theorem StaysOpen.exists_depth (h : StaysOpen depth (c :: cs)) :
    ∃ d, depth + (if opens c then 1 else 0) = d + (if closes c then 1 else 0) := by
  have hone : (if closes c then 1 else 0) ≤ depth + (if opens c then 1 else 0) := by
    simpa [List.countP_cons] using h [c] (List.prefix_append [c] cs)
  exact ⟨_, (Nat.sub_add_cancel hone).symm⟩

theorem StaysOpen.tail (h : StaysOpen depth (c :: cs))
    (hd : depth + (if opens c then 1 else 0) = d + (if closes c then 1 else 0)) : StaysOpen d cs := by
  intro p hp
  have hcons := h (c :: p) (List.cons_prefix_cons.2 ⟨rfl, hp⟩)
  rw [List.countP_cons, List.countP_cons] at hcons
  omega

theorem behindCall?_of_advance (h : advance? (depth, quoted) c = some (d, q)) :
    behindCall? depth quoted (c :: cs) = behindCall? d q cs := by
  rw [behindCall?, splitArgs_of_advance h, Option.map_map]
  rfl

/-- A comma parts two arguments, but the call goes on behind it. -/
theorem behindCall?_comma : behindCall? 0 false (',' :: cs) = behindCall? 0 false cs := by
  rw [behindCall?, splitArgs_comma, Option.map_map]
  rfl

/-- Outside literals a character moves the depth by what it opens and closes. -/
theorem behindCall?_outside (hc : c ≠ '\x22')
    (hd : depth + (if opens c then 1 else 0) = d + (if closes c then 1 else 0)) :
    behindCall? depth false (c :: cs) = behindCall? d false cs := by
  cases h : advance? (depth, false) c with
  | none =>
    -- At the call's own level only a comma is left: a parenthesis would need one level more.
    obtain ⟨hs, rfl | rfl⟩ := advance?_eq_none_iff.1 h
    · cases hs
      exact absurd hd (Nat.succ_ne_zero d).symm
    · cases hs
      cases hd
      exact behindCall?_comma
  | some s =>
    have hs : s = (d, false) := by
      unfold advance? at h
      unfold opens closes at hd
      grind
    exact behindCall?_of_advance (hs ▸ h)

/-- The scan comes out of a text that closes what is open in front of it, at the level of the call.
The induction is on the text; what stays open in front of each rest carries it. -/
theorem behindCall?_append (hopen : StaysOpen depth (outside quoted cs))
    (hclosed : (outside quoted cs).countP closes = depth + (outside quoted cs).countP opens)
    (hquotes : cs.count '\x22' % 2 = quoted.toNat) (rest : List Char) :
    behindCall? depth quoted (cs ++ rest) = behindCall? 0 false rest := by
  induction cs generalizing depth quoted with
  | nil =>
    obtain rfl : depth = 0 := Nat.eq_zero_of_add_eq_zero_right hclosed.symm
    cases quoted with
    | false => rfl
    | true => cases hquotes
  | cons c cs ih =>
    rw [List.cons_append]
    by_cases hc : c = '\x22'
    · subst hc
      have hflip : cs.count '\x22' % 2 = (!quoted).toNat := by
        rw [List.count_cons_self] at hquotes
        cases quoted with
        | false => exact Nat.succ_mod_two_eq_zero_iff.1 hquotes
        | true => exact Nat.succ_mod_two_eq_one_iff.1 hquotes
      rw [behindCall?_of_advance (d := depth) (q := !quoted) rfl]
      exact ih hopen hclosed hflip
    · rw [List.count_cons_of_ne hc] at hquotes
      rw [outside, if_neg hc] at hopen hclosed
      cases quoted with
      | true =>
        have hstay : advance? (depth, true) c = some (depth, true) := by
          simp [advance?, hc]
        rw [behindCall?_of_advance hstay]
        exact ih hopen hclosed hquotes
      | false =>
        rw [if_neg Bool.false_ne_true] at hopen hclosed
        obtain ⟨d, hd⟩ := hopen.exists_depth
        rw [List.countP_cons, List.countP_cons] at hclosed
        rw [behindCall?_outside hc hd]
        exact ih (hopen.tail hd) (by omega) hquotes

theorem Balanced.behindCall?_eq (h : Balanced cs) (rest : List Char) :
    behindCall? 0 false (cs ++ rest) = behindCall? 0 false rest :=
  behindCall?_append h.staysOpen (by rw [h.closed, Nat.zero_add]) h.literals rest

end Scan

section Guard

variable {written args e cs : List Char}

/-- Behind the name of the guard stand the arguments of one call, and nothing behind it. -/
theorem isGuarded_append (hname : Text.asciiUpper written = "IFERROR(".toList) (cs : List Char) :
    isGuarded (written ++ cs) = true ↔ behindCall? 0 false cs = some [] := by
  have hafter : afterCall? "IFERROR(".toList (written ++ cs) = some cs :=
    afterCall?_eq_some_iff.2 ⟨written, rfl, hname⟩
  rw [isGuarded, hafter, behindCall?, Option.any_eq_true, Option.map_eq_some_iff]
  simp only [List.isEmpty_iff]

/-- A call with balanced arguments is a guard where it ends the text. -/
theorem isGuarded_call_iff (hname : Text.asciiUpper written = "IFERROR(".toList)
    (hargs : Balanced args) (rest : List Char) :
    isGuarded (written ++ args ++ ')' :: rest) = true ↔ rest = [] := by
  have hend : behindCall? 0 false (')' :: rest) = some rest := rfl
  rw [List.append_assoc, isGuarded_append hname, hargs.behindCall?_eq, hend, Option.some_inj]

def guarded (e : List Char) : List Char :=
  "IFERROR(".toList ++ (e ++ [',', ' ', '\x22', '\x22', ')'])

theorem isGuarded_guarded (h : Balanced e) : isGuarded (guarded e) = true := by
  have hname : Text.asciiUpper "IFERROR(".toList = "IFERROR(".toList := by decide +kernel
  have hend : behindCall? 0 false [',', ' ', '\x22', '\x22', ')'] = some [] := by decide +kernel
  unfold guarded
  rw [isGuarded_append hname, h.behindCall?_eq, hend]

/-- The guard begins with a letter and ends with a parenthesis. -/
theorem exists_guarded (e : List Char) : ∃ cs, guarded e = 'I' :: (cs ++ [')']) := by
  have hname : "IFERROR(".toList = 'I' :: "FERROR(".toList := by decide +kernel
  refine ⟨"FERROR(".toList ++ (e ++ [',', ' ', '\x22', '\x22']), ?_⟩
  unfold guarded
  rw [hname]
  simp only [List.cons_append, List.append_assoc, List.nil_append]

theorem expression_guarded (e : List Char) : expression ('=' :: guarded e) = guarded e := by
  obtain ⟨cs, hcs⟩ := exists_guarded e
  have houter : Text.trim ('=' :: guarded e) = '=' :: guarded e := by
    rw [hcs]
    exact Text.trim_cons_concat (by decide) (by decide) ('I' :: cs)
  have hinner : Text.trim (guarded e) = guarded e := by
    rw [hcs]
    exact Text.trim_cons_concat (by decide) (by decide) cs
  rw [expression, houter]
  exact hinner

theorem guardChars_eq (cs : List Char) : guardChars cs =
    if isGuarded (expression cs) then cs else '=' :: guarded (expression cs) := by
  have hname : "=IFERROR(".toList = '=' :: "IFERROR(".toList := by decide +kernel
  unfold guardChars guarded
  dsimp only
  rw [hname, List.cons_append, List.cons_append, List.append_assoc]

theorem guardChars_guardChars (h : Balanced (expression cs)) :
    guardChars (guardChars cs) = guardChars cs := by
  by_cases hguarded : isGuarded (expression cs) = true
  · have hsame : guardChars cs = cs := by rw [guardChars_eq, if_pos hguarded]
    rw [hsame, hsame]
  · rw [guardChars_eq cs, if_neg hguarded, guardChars_eq, expression_guarded, isGuarded_guarded h,
      if_pos rfl]

/-- Guarding a balanced formula again changes nothing, and a call of the guard's name is no guard of
a formula that goes on behind it. -/
theorem guard_once (formula : String) :
    (Balanced (expression formula.toList) → guard (guard formula) = guard formula) ∧
      ∀ written args rest, expression formula.toList = written ++ args ++ ')' :: rest →
        Text.asciiUpper written = "IFERROR(".toList → Balanced args → rest ≠ [] →
        guard formula =
          "=IFERROR(" ++ String.ofList (expression formula.toList) ++ ", \"\")" := by
  constructor
  · intro h
    rw [guard, guard, String.toList_ofList, guardChars_guardChars h]
  · intro written args rest hcall hname hargs hrest
    have hopen : ¬ isGuarded (expression formula.toList) = true := by
      rw [hcall, isGuarded_call_iff hname hargs]
      exact hrest
    have hend : ", \"\")".toList = [',', ' ', '\x22', '\x22', ')'] := by decide +kernel
    have hchars : guardChars formula.toList = "=IFERROR(".toList ++ expression formula.toList ++
        ", \"\")".toList := by
      rw [hend, guardChars, if_neg hopen]
    rw [guard, hchars, String.ofList_append, String.ofList_append, String.ofList_toList,
      String.ofList_toList]

/-- A parenthesis in a literal, an array and a call inside the first of two calls. -/
theorem guard_once_two_calls :
    let formula := "= iferror(\x7b1,\")\"\x7d,f(a))&IFERROR(b,0) "
    let twice := "=IFERROR(iferror(\x7b1,\")\"\x7d,f(a))&IFERROR(b,0), \"\")"
    Balanced (expression formula.toList) ∧ Balanced "\x7b1,\")\"\x7d,f(a)".toList ∧
      guard formula = twice ∧ guard twice = twice := by
  intro formula twice
  have hexpression : expression formula.toList =
      "iferror(\x7b1,\")\"\x7d,f(a))&IFERROR(b,0)".toList := by decide +kernel
  have hbalanced : Balanced (expression formula.toList) := by
    rw [hexpression]
    decide +kernel
  have hargs : Balanced "\x7b1,\")\"\x7d,f(a)".toList := by decide +kernel
  obtain ⟨honce, hwraps⟩ := guard_once formula
  have hguard : guard formula = twice := by
    rw [hwraps "iferror(".toList _ "&IFERROR(b,0)".toList (by rw [hexpression]; decide +kernel)
      (by decide +kernel) hargs (by decide), hexpression]
    decide +kernel
  refine ⟨hbalanced, hargs, hguard, ?_⟩
  rw [← hguard]
  exact honce hbalanced

end Guard

end WorkbookPlan.Formula
