import Mathlib.Data.List.DropRight
import WorkbookPlan.Text.Basic
import WorkbookPlan.Text.Word

/-! Where the blanks around a text and its first and last separators are. -/
namespace WorkbookPlan.Text

def blanks : List Nat :=
  [9, 10, 11, 12, 13, 0x20, 0x85, 0xA0, 0x1680, 0x2000, 0x2001, 0x2002, 0x2003, 0x2004, 0x2005,
   0x2006, 0x2007, 0x2008, 0x2009, 0x200A, 0x2028, 0x2029, 0x202F, 0x205F, 0x3000]

theorem toNat_mem_blanks {c : Char} (h : isBlank c = true) : c.toNat ∈ blanks := by
  simp only [isBlank, Bool.or_eq_true, Bool.and_eq_true, decide_eq_true_eq, beq_iff_eq] at h
  simp only [blanks, List.mem_cons, List.not_mem_nil, or_false]
  omega

/-- What holds of no code point in the list holds of no blank. -/
theorem eq_false_of_isBlank {p : Char → Bool} {c : Char}
    (hall : ∀ n ∈ blanks, p (Char.ofNat n) = false) (h : isBlank c = true) : p c = false := by
  have hc := hall c.toNat (toNat_mem_blanks h)
  rwa [Char.ofNat_toNat] at hc

/-- A blank is never part of a name. -/
theorem isNameChar_of_isBlank {c : Char} : isBlank c = true → isNameChar c = false :=
  eq_false_of_isBlank (by decide +kernel)

/-- A blank is never part of a word. -/
theorem isWordChar_of_isBlank {c : Char} : isBlank c = true → isWordChar c = false :=
  eq_false_of_isBlank (by decide +kernel)

section Trim

variable {x : Char} {a b cs : List Char}

theorem trimStart_cons (x : Char) (cs : List Char) :
    trimStart (x :: cs) = if isBlank x then trimStart cs else x :: cs := by
  rw [trimStart, List.dropWhile_cons]
  rfl

theorem trimStart_append_cons (hx : isBlank x = false) (a b : List Char) :
    trimStart (a ++ x :: b) = trimStart a ++ x :: b := by
  rw [trimStart, trimStart, List.dropWhile_append, List.dropWhile_cons_of_neg (by simp [hx])]
  split
  · next h => rw [List.isEmpty_iff.1 h, List.nil_append]
  · rfl

theorem trimEnd_append_cons (hx : isBlank x = false) (a b : List Char) :
    trimEnd (a ++ x :: b) = a ++ x :: trimEnd b := by
  have hreverse : (a ++ x :: b).reverse = b.reverse ++ x :: a.reverse := by simp
  have hstart := trimStart_append_cons hx b.reverse a.reverse
  rw [trimEnd, dropEndWhile, hreverse]
  rw [trimStart, trimStart] at hstart
  rw [hstart]
  simp [trimEnd, dropEndWhile]

theorem trim_append_cons (hx : isBlank x = false) (a b : List Char) :
    trim (a ++ x :: b) = trimStart a ++ x :: trimEnd b := by
  rw [trim, trimStart_append_cons hx, trimEnd_append_cons hx]

/-- A text that neither begins nor ends with a blank is trimmed already. -/
theorem trim_cons_concat {y : Char} (hx : isBlank x = false) (hy : isBlank y = false)
    (cs : List Char) : trim (x :: (cs ++ [y])) = x :: (cs ++ [y]) := by
  have hstart : trimStart (x :: cs) = x :: cs := by
    rw [trimStart_cons, hx]
    rfl
  rw [← List.cons_append, trim_append_cons hy, hstart]
  rfl

theorem trimStart_eq_self (h : ∀ c ∈ cs, isBlank c = false) : trimStart cs = cs := by
  cases cs with
  | nil => rfl
  | cons c cs => exact List.dropWhile_cons_of_neg (by simp [h c List.mem_cons_self])

theorem trim_eq_self (h : ∀ c ∈ cs, isBlank c = false) : trim cs = cs := by
  have hreverse : trimStart cs.reverse = cs.reverse :=
    trimStart_eq_self fun c hc => h c (List.mem_reverse.1 hc)
  rw [trim, trimStart_eq_self h, trimEnd, dropEndWhile]
  rw [trimStart] at hreverse
  rw [hreverse, List.reverse_reverse]

theorem trimEnd_trimEnd (cs : List Char) : trimEnd (trimEnd cs) = trimEnd cs :=
  List.rdropWhile_idempotent isBlank cs

/-- A text is blank, or it has a first character that is not. -/
theorem blank_or_exists (cs : List Char) :
    trimStart cs = [] ∨ ∃ a x b, cs = a ++ x :: b ∧ isBlank x = false := by
  cases h : cs.dropWhile isBlank with
  | nil => exact .inl h
  | cons x b =>
    refine .inr ⟨cs.takeWhile isBlank, x, b, ?_, ?_⟩
    · rw [← h, List.takeWhile_append_dropWhile]
    · simpa [h] using List.head_dropWhile_not isBlank (l := cs) (by simp [h])

theorem trimEnd_of_trimStart_eq_nil (h : trimStart cs = []) : trimEnd cs = [] := by
  have hall : ∀ c ∈ cs, isBlank c = true := by
    rw [trimStart, List.dropWhile_eq_nil_iff] at h
    exact h
  have hreverse : cs.reverse.dropWhile isBlank = [] :=
    List.dropWhile_eq_nil_iff.2 fun c hc => hall c (List.mem_reverse.1 hc)
  rw [trimEnd, dropEndWhile, hreverse, List.reverse_nil]

theorem trimEnd_append (a b : List Char) :
    trimEnd (a ++ b) = if trimEnd b = [] then trimEnd a else a ++ trimEnd b := by
  simp only [trimEnd, dropEndWhile, List.reverse_append, List.dropWhile_append, List.isEmpty_iff,
    List.reverse_eq_nil_iff]
  split <;> simp

/-- A text that is not blank, with a blank and more behind it, is trimmed to what it is trimmed to itself,
with nothing behind it or a blank first. -/
theorem exists_trim_append (hx : isBlank x = true) (hcs : trim cs ≠ []) (more : List Char) :
    ∃ behind, trim (cs ++ x :: more) = trim cs ++ behind ∧
      ∀ c ∈ behind.head?, isBlank c = true := by
  rcases blank_or_exists cs with hblank | ⟨a, y, b, rfl, hy⟩
  · rw [trim, hblank] at hcs
    exact absurd rfl hcs
  · rw [List.append_assoc, List.cons_append, trim_append_cons hy, trim_append_cons hy, trimEnd_append]
    split
    · exact ⟨[], (List.append_nil _).symm, by simp⟩
    · have hb : trimEnd b ++ b.rtakeWhile isBlank = b := List.rdropWhile_append_rtakeWhile
      refine ⟨b.rtakeWhile isBlank ++ trimEnd (x :: more), ?_, fun c hc => ?_⟩
      · rw [List.append_assoc, List.cons_append, ← List.append_assoc (trimEnd b), hb]
      · have hcut : trimEnd (x :: more) <+: x :: more := List.rdropWhile_prefix isBlank _
        obtain ⟨rest, hrest⟩ := hcut
        have hhead : (b.rtakeWhile isBlank ++ x :: more).head? = some c := by
          rw [← hrest, ← List.append_assoc, List.head?_append, Option.mem_def.1 hc]
          rfl
        cases hblanks : b.rtakeWhile isBlank with
        | nil =>
          rw [hblanks] at hhead
          exact Option.some.inj hhead ▸ hx
        | cons z zs =>
          rw [hblanks] at hhead
          have hz : z ∈ b.rtakeWhile isBlank := hblanks ▸ List.mem_cons_self
          exact Option.some.inj hhead ▸ List.mem_rtakeWhile_imp hz

/-- A blank end does not matter. -/
theorem trim_trimEnd (cs : List Char) : trim (trimEnd cs) = trim cs := by
  rcases blank_or_exists cs with hblank | ⟨a, x, b, rfl, hx⟩
  · rw [trimEnd_of_trimStart_eq_nil hblank, trim, trim, hblank]
    rfl
  · rw [trimEnd_append_cons hx, trim_append_cons hx, trim_append_cons hx, trimEnd_trimEnd]

theorem trim_trim (cs : List Char) : trim (trim cs) = trim cs := by
  rcases blank_or_exists cs with hblank | ⟨a, x, b, rfl, hx⟩
  · rw [trim, trim, hblank]
    rfl
  · rw [trim_append_cons hx, trim_append_cons hx, trimEnd_trimEnd]
    congr 1
    exact List.dropWhile_idempotent isBlank a

/-- All that a trimmed text has lost are blanks at its ends. -/
theorem exists_trim (cs : List Char) : ∃ a b, cs = a ++ trim cs ++ b ∧
    (∀ c ∈ a, isBlank c = true) ∧ ∀ c ∈ b, isBlank c = true := by
  refine ⟨cs.takeWhile isBlank, (trimStart cs).rtakeWhile isBlank, ?_,
    fun c hc => List.mem_takeWhile_imp hc, fun c hc => List.mem_rtakeWhile_imp hc⟩
  have hend : trim cs ++ (trimStart cs).rtakeWhile isBlank = trimStart cs :=
    List.rdropWhile_append_rtakeWhile
  rw [List.append_assoc, hend]
  exact List.takeWhile_append_dropWhile.symm

theorem trimEnd_subset (cs : List Char) : trimEnd cs ⊆ cs := fun _ hc =>
  List.mem_reverse.1 ((List.dropWhile_sublist isBlank).subset (List.mem_reverse.1 hc))

theorem trim_subset (cs : List Char) : trim cs ⊆ cs := fun _ hc =>
  (List.dropWhile_sublist isBlank).subset (trimEnd_subset _ hc)

end Trim

section Cut

variable {sep : Char} {a b cs : List Char}

theorem cutFirst?_eq_none (h : sep ∉ cs) : cutFirst? sep cs = none := by
  induction cs with
  | nil => rfl
  | cons c cs ih =>
    obtain ⟨hne, hrest⟩ := not_or.1 (mt List.mem_cons.2 h)
    rw [cutFirst?, if_neg (Ne.symm hne), ih hrest, Option.map_none]

theorem cutFirst?_append (h : sep ∉ a) (b : List Char) :
    cutFirst? sep (a ++ sep :: b) = some (a, b) := by
  induction a with
  | nil => simp [cutFirst?]
  | cons c a ih =>
    obtain ⟨hne, hrest⟩ := not_or.1 (mt List.mem_cons.2 h)
    rw [List.cons_append, cutFirst?, if_neg (Ne.symm hne), ih hrest, Option.map_some]

theorem cutFirst?_eq_some_iff : cutFirst? sep cs = some (a, b) ↔ cs = a ++ sep :: b ∧ sep ∉ a := by
  constructor
  · intro h
    induction cs generalizing a with
    | nil => cases h
    | cons c cs ih =>
      rw [cutFirst?] at h
      split at h
      · next hsep =>
        cases h
        exact ⟨hsep ▸ rfl, List.not_mem_nil⟩
      · next hne =>
        obtain ⟨⟨a', b'⟩, hcut, hpair⟩ := Option.map_eq_some_iff.1 h
        cases hpair
        obtain ⟨rfl, hrest⟩ := ih hcut
        exact ⟨rfl, fun hmem => (List.mem_cons.1 hmem).elim (Ne.symm hne) hrest⟩
  · rintro ⟨rfl, h⟩
    exact cutFirst?_append h b

theorem cutLast?_eq_none (h : sep ∉ cs) : cutLast? sep cs = none := by
  induction cs with
  | nil => rfl
  | cons c cs ih =>
    obtain ⟨hne, hrest⟩ := not_or.1 (mt List.mem_cons.2 h)
    rw [cutLast?, ih hrest]
    exact if_neg (Ne.symm hne)

theorem cutLast?_append (a : List Char) (h : sep ∉ b) :
    cutLast? sep (a ++ sep :: b) = some (a, b) := by
  induction a with
  | nil => simp [cutLast?, cutLast?_eq_none h]
  | cons c a ih => rw [List.cons_append, cutLast?, ih]

/-- A text has no separator, or it has a last one. -/
theorem notMem_or_exists_last (sep : Char) (cs : List Char) :
    sep ∉ cs ∨ ∃ a b, cs = a ++ sep :: b ∧ sep ∉ b := by
  induction cs with
  | nil => exact .inl List.not_mem_nil
  | cons c cs ih =>
    rcases ih with hnone | ⟨a, b, rfl, hb⟩
    · by_cases hc : c = sep
      · exact .inr ⟨[], cs, by rw [hc, List.nil_append], hnone⟩
      · exact .inl (mt List.mem_cons.1 (not_or.2 ⟨Ne.symm hc, hnone⟩))
    · exact .inr ⟨c :: a, b, rfl, hb⟩

end Cut

end WorkbookPlan.Text
