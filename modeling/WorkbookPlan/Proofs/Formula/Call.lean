import Mathlib.Data.List.Basic
import WorkbookPlan.Formula.Call

/-! How a call is cut into its arguments. A text is part of one argument as long as it neither
closes the call nor holds a comma at the call's own level; `walk` keeps the level. -/
namespace WorkbookPlan.Formula

/-- The depth and the open literal behind one character, unless it ends the argument. -/
def advance? (s : Nat × Bool) (c : Char) : Option (Nat × Bool) :=
  if c = '\x22' then some (s.1, !s.2)
  else if s.2 then some s
  else if c = '(' ∨ c = '\x7b' then some (s.1 + 1, s.2)
  else if c = ')' ∧ s.1 = 0 then none
  else if c = ')' ∨ c = '\x7d' then some (s.1 - 1, s.2)
  else if c = ',' ∧ s.1 = 0 then none
  else some s

/-- The depth and the open literal behind a text that stays within one argument. -/
def walk (s : Nat × Bool) (cs : List Char) : Option (Nat × Bool) :=
  cs.foldlM advance? s

/-- The text can stand as one argument of a call. -/
def IsArg (cs : List Char) : Prop :=
  walk (0, false) cs = some (0, false)

instance (cs : List Char) : Decidable (IsArg cs) :=
  inferInstanceAs (Decidable (walk (0, false) cs = some (0, false)))

section Walk

variable {s t : Nat × Bool} {c : Char} {cs x y : List Char}

@[simp] theorem walk_nil (s : Nat × Bool) : walk s [] = some s := rfl

theorem walk_cons (s : Nat × Bool) (c : Char) (cs : List Char) :
    walk s (c :: cs) = (advance? s c).bind fun t => walk t cs :=
  List.foldlM_cons

theorem walk_append (s : Nat × Bool) (x y : List Char) :
    walk s (x ++ y) = (walk s x).bind fun t => walk t y :=
  List.foldlM_append

theorem walk_append_of_eq (h : walk s x = some t) : walk s (x ++ y) = walk t y := by
  rw [walk_append, h, Option.bind_some]

theorem advance?_eq_none_iff : advance? s c = none ↔ s = (0, false) ∧ (c = ')' ∨ c = ',') := by
  obtain ⟨depth, quoted⟩ := s
  unfold advance?
  grind

end Walk

def structural : List Char :=
  ['\x22', '(', ')', '\x7b', '\x7d', ',']

def Plain (cs : List Char) : Prop :=
  ∀ c ∈ cs, c ∉ structural

instance (cs : List Char) : Decidable (Plain cs) :=
  List.decidableBAll _ cs

/-- Parentheses and braces are paired, literals are closed, and a comma stands inside one of these,
or anywhere if the text is itself inside a pair. All other characters, square brackets and sheet
quotes among them, stand for themselves. -/
inductive Closed : (inner : Bool) → List Char → Prop where
  | nil {inner} : Closed inner []
  | plain {inner c cs} : c ∉ structural → Closed inner cs → Closed inner (c :: cs)
  | comma {cs} : Closed true cs → Closed true (',' :: cs)
  | literal {inner body cs} : '\x22' ∉ body → Closed inner cs →
      Closed inner ('\x22' :: (body ++ '\x22' :: cs))
  | parentheses {inner x cs} : Closed true x → Closed inner cs →
      Closed inner ('(' :: (x ++ ')' :: cs))
  | braces {inner x cs} : Closed true x → Closed inner cs →
      Closed inner ('\x7b' :: (x ++ '\x7d' :: cs))

section Closed

variable {depth : Nat} {inner : Bool} {c : Char} {cs x y : List Char}

theorem advance?_plain (s : Nat × Bool) (h : c ∉ structural) : advance? s c = some s := by
  unfold advance?
  unfold structural at h
  grind

theorem Plain.walk_eq (h : Plain x) (s : Nat × Bool) : walk s x = some s := by
  induction x with
  | nil => rfl
  | cons c x ih =>
    obtain ⟨hc, hx⟩ := List.forall_mem_cons.1 h
    rw [walk_cons, advance?_plain s hc, Option.bind_some, ih hx]

theorem walk_body (h : '\x22' ∉ x) : walk (depth, true) x = some (depth, true) := by
  induction x with
  | nil => rfl
  | cons c x ih =>
    have hc : advance? (depth, true) c = some (depth, true) := by
      have hne := List.ne_of_not_mem_cons h
      simp [advance?, hne.symm]
    rw [walk_cons, hc, Option.bind_some, ih (List.not_mem_of_not_mem_cons h)]

/-- A closed text leads back to its own level. -/
theorem Closed.walk_eq (h : Closed inner cs) (hdepth : inner = true → 0 < depth) :
    walk (depth, false) cs = some (depth, false) := by
  induction h generalizing depth with
  | nil => rfl
  | plain hc _ ih =>
    rw [walk_cons, advance?_plain _ hc, Option.bind_some, ih hdepth]
  | comma _ ih =>
    have hne : depth ≠ 0 := Nat.ne_of_gt (hdepth rfl)
    have hc : advance? (depth, false) ',' = some (depth, false) := by simp [advance?, hne]
    rw [walk_cons, hc, Option.bind_some, ih hdepth]
  | literal hbody _ ih =>
    have hopen : advance? (depth, false) '\x22' = some (depth, true) := rfl
    have hclose : advance? (depth, true) '\x22' = some (depth, false) := rfl
    rw [walk_cons, hopen, Option.bind_some, walk_append_of_eq (walk_body hbody), walk_cons, hclose,
      Option.bind_some, ih hdepth]
  | parentheses _ _ ihx ih =>
    have hopen : advance? (depth, false) '(' = some (depth + 1, false) := rfl
    have hclose : advance? (depth + 1, false) ')' = some (depth, false) := by simp [advance?]
    rw [walk_cons, hopen, Option.bind_some, walk_append_of_eq (ihx fun _ => Nat.succ_pos _),
      walk_cons, hclose, Option.bind_some, ih hdepth]
  | braces _ _ ihx ih =>
    have hopen : advance? (depth, false) '\x7b' = some (depth + 1, false) := rfl
    have hclose : advance? (depth + 1, false) '\x7d' = some (depth, false) := by simp [advance?]
    rw [walk_cons, hopen, Option.bind_some, walk_append_of_eq (ihx fun _ => Nat.succ_pos _),
      walk_cons, hclose, Option.bind_some, ih hdepth]

theorem Closed.isArg (h : Closed false cs) : IsArg cs :=
  h.walk_eq (by simp)

theorem Plain.closed (h : Plain x) : Closed inner x := by
  induction x with
  | nil => exact .nil
  | cons c x ih =>
    obtain ⟨hc, hx⟩ := List.forall_mem_cons.1 h
    exact .plain hc (ih hx)

theorem Closed.append (hx : Closed inner x) (hy : Closed inner y) : Closed inner (x ++ y) := by
  induction hx with
  | nil => exact hy
  | plain hc _ ih => exact .plain hc (ih hy)
  | comma _ ih => exact .comma (ih hy)
  | literal hbody _ ih =>
    rw [List.cons_append, List.append_assoc]
    exact .literal hbody (ih hy)
  | parentheses hx _ _ ih =>
    rw [List.cons_append, List.append_assoc]
    exact .parentheses hx (ih hy)
  | braces hx _ _ ih =>
    rw [List.cons_append, List.append_assoc]
    exact .braces hx (ih hy)

end Closed

namespace Args

def prepend (x : List Char) (a : Args) : Args :=
  { a with current := x ++ a.current }

/-- The text behind the current argument. -/
def behind : (later : List (List Char)) → (rest : List Char) → List Char
  | [], rest => ')' :: rest
  | x :: later, rest => ',' :: (x ++ behind later rest)

theorem behind_append (later : List (List Char)) (rest y : List Char) :
    behind later rest ++ y = behind later (rest ++ y) := by
  induction later with
  | nil => rfl
  | cons x later ih => simp only [behind, List.cons_append, List.append_assoc, ih]

/-- The comma that parts the current argument from the one before. -/
def shift (a : Args) : Args :=
  ⟨[], a.current :: a.later, a.rest⟩

end Args

section Split

variable {depth : Nat} {quoted : Bool} {s : Nat × Bool} {cs x rest : List Char} {a : Args}

theorem splitArgs_of_advance {c : Char} {d : Nat} {q : Bool}
    (h : advance? (depth, quoted) c = some (d, q)) :
    splitArgs depth quoted (c :: cs) = (splitArgs d q cs).map (·.push c) := by
  unfold advance? at h
  rw [splitArgs]
  grind

theorem splitArgs_comma : splitArgs 0 false (',' :: cs) = (splitArgs 0 false cs).map Args.shift :=
  rfl

/-- What stays within one argument goes in front of the current one. -/
theorem splitArgs_append {d : Nat} {q : Bool} (h : walk (depth, quoted) x = some (d, q)) :
    splitArgs depth quoted (x ++ rest) = (splitArgs d q rest).map (·.prepend x) := by
  induction x generalizing depth quoted with
  | nil =>
    cases h
    simp [Args.prepend]
  | cons c x ih =>
    rw [walk_cons] at h
    obtain ⟨⟨d', q'⟩, hc, hx⟩ := Option.bind_eq_some_iff.1 h
    rw [List.cons_append, splitArgs_of_advance hc, ih hx, Option.map_map]
    rfl

theorem splitArgs_behind {later : List (List Char)} (h : ∀ x ∈ later, IsArg x) :
    splitArgs 0 false (Args.behind later rest) = some ⟨[], later, rest⟩ := by
  induction later with
  | nil => rfl
  | cons x later ih =>
    obtain ⟨hx, hlater⟩ := List.forall_mem_cons.1 h
    rw [Args.behind, splitArgs_comma, splitArgs_append hx, ih hlater]
    simp [Args.prepend, Args.shift]

/-- A call is cut into arguments just as it is put together from them. -/
theorem splitArgs_eq_some_iff : splitArgs depth quoted cs = some a ↔
    walk (depth, quoted) a.current = some (0, false) ∧ (∀ x ∈ a.later, IsArg x) ∧
      cs = a.current ++ Args.behind a.later a.rest := by
  constructor
  · intro h
    induction cs generalizing depth quoted a with
    | nil => cases h
    | cons c cs ih =>
      cases hc : advance? (depth, quoted) c with
      | some s =>
        rw [splitArgs_of_advance hc] at h
        obtain ⟨b, hb, rfl⟩ := Option.map_eq_some_iff.1 h
        obtain ⟨hcurrent, hlater, rfl⟩ := ih hb
        refine ⟨?_, hlater, rfl⟩
        rw [Args.push, walk_cons, hc]
        exact hcurrent
      | none =>
        obtain ⟨hs, rfl | rfl⟩ := advance?_eq_none_iff.1 hc
        · cases hs
          cases h
          exact ⟨rfl, List.forall_mem_nil _, rfl⟩
        · cases hs
          obtain ⟨b, hb, rfl⟩ := Option.map_eq_some_iff.1 (splitArgs_comma ▸ h)
          obtain ⟨hcurrent, hlater, rfl⟩ := ih hb
          exact ⟨rfl, List.forall_mem_cons.2 ⟨hcurrent, hlater⟩, rfl⟩
  · rintro ⟨hcurrent, hlater, rfl⟩
    rw [splitArgs_append hcurrent, splitArgs_behind hlater]
    simp [Args.prepend]

/-- What follows the call does not change its arguments. -/
theorem splitArgs_append_right (h : splitArgs depth quoted cs = some a) (y : List Char) :
    splitArgs depth quoted (cs ++ y) = some { a with rest := a.rest ++ y } := by
  obtain ⟨hcurrent, hlater, rfl⟩ := splitArgs_eq_some_iff.1 h
  refine splitArgs_eq_some_iff.2 ⟨hcurrent, hlater, ?_⟩
  rw [List.append_assoc, Args.behind_append]

theorem count_of_advance {d : Nat} {q : Bool} {c : Char}
    (h : advance? (depth, quoted) c = some (d, q)) :
    [c].count '\x22' % 2 = (quoted ^^ q).toNat := by
  unfold advance? at h
  by_cases hc : c = '\x22'
  · rw [if_pos hc] at h
    cases h
    subst hc
    cases quoted <;> rfl
  · have hsame : q = quoted := by grind
    have hzero : [c].count '\x22' = 0 := by simp [hc]
    rw [hsame, hzero]
    simp

/-- The parenthesis that closes a call stands outside literals. -/
theorem exists_close (h : splitArgs depth quoted cs = some a) :
    ∃ u v, cs = u ++ ')' :: v ∧ u.count '\x22' % 2 = quoted.toNat := by
  induction cs generalizing depth quoted a with
  | nil => cases h
  | cons c cs ih =>
    cases hc : advance? (depth, quoted) c with
    | some s =>
      obtain ⟨d, q⟩ := s
      rw [splitArgs_of_advance hc] at h
      obtain ⟨b, hb, rfl⟩ := Option.map_eq_some_iff.1 h
      obtain ⟨u, v, rfl, hu⟩ := ih hb
      refine ⟨c :: u, v, rfl, ?_⟩
      have hcount := count_of_advance hc
      rw [← List.singleton_append, List.count_append, Nat.add_mod, hcount, hu]
      cases quoted <;> cases q <;> rfl
    | none =>
      obtain ⟨hs, rfl | rfl⟩ := advance?_eq_none_iff.1 hc
      · cases hs
        exact ⟨[], cs, rfl, rfl⟩
      · cases hs
        obtain ⟨b, hb, rfl⟩ := Option.map_eq_some_iff.1 (splitArgs_comma ▸ h)
        obtain ⟨u, v, rfl, hu⟩ := ih hb
        exact ⟨',' :: u, v, rfl, by simpa using hu⟩

end Split

/-- A call's name may be written in any letter case. -/
theorem afterCall?_eq_some_iff {name cs after : List Char} : afterCall? name cs = some after ↔
    ∃ written, cs = written ++ after ∧ Text.asciiUpper written = name := by
  unfold afterCall?
  constructor
  · intro h
    obtain ⟨more, hlead, rfl⟩ := Option.map_eq_some_iff.1 h
    rw [Text.afterLead?_eq_some_iff] at hlead
    have hlength := congrArg List.length hlead
    simp only [Text.length_asciiUpper, List.length_append, List.length_take] at hlength
    obtain rfl := List.eq_nil_of_length_eq_zero (show more.length = 0 by omega)
    exact ⟨cs.take name.length, (List.take_append_drop _ _).symm, by simpa using hlead⟩
  · rintro ⟨written, rfl, rfl⟩
    have hlead : Text.afterLead? (Text.asciiUpper written) (Text.asciiUpper written) = some [] :=
      Text.afterLead?_eq_some_iff.2 (List.append_nil _).symm
    simp [hlead]

end WorkbookPlan.Formula
