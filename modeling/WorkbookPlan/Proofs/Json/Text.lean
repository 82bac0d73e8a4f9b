import WorkbookPlan.Proofs.Json.Number

/-! The text of a value is read as that value, if its whole numbers have 64 bits, its floating-point
numbers survive being written, and its lists and objects do not stand too deep in one another. -/
namespace WorkbookPlan

namespace Keyed

variable {α : Type _}

theorem insert_of_forall_lt {k : String} {v : α} {entries : List (String × α)}
    (h : ∀ e ∈ entries, e.1 < k) : insert k v entries = entries ++ [(k, v)] := by
  induction entries with
  | nil => rfl
  | cons e rest ih =>
    obtain ⟨hlt, hrest⟩ := List.forall_mem_cons.1 h
    rw [insert, if_neg (String.lt_asymm hlt), if_neg (String.ne_of_lt hlt).symm, ih hrest]
    rfl

/-- Entries whose keys rise stay as they are. -/
theorem ofList_of_sorted {entries : List (String × α)} (h : Sorted entries) :
    ofList entries = entries := by
  have hfold : ∀ acc, Sorted (acc ++ entries) →
      entries.foldl (fun acc e => insert e.1 e.2 acc) acc = acc ++ entries := by
    clear h
    induction entries with
    | nil => exact fun acc _ => (List.append_nil acc).symm
    | cons e rest ih =>
      intro acc hsorted
      have hbefore : ∀ x ∈ acc, x.1 < e.1 := fun x hx =>
        (List.pairwise_append.1 hsorted).2.2 x hx e List.mem_cons_self
      rw [List.foldl_cons, insert_of_forall_lt hbefore, ih _ (by rwa [List.append_assoc]),
        List.append_assoc]
      rfl
  exact hfold [] h

end Keyed

namespace Json

section Quoted

theorem hexValue?_hexDigit : ∀ n < 16, hexValue? (hexDigit n) = some n := by
  decide

theorem readEscape?_control {n : Nat} (hn : n < 32) (r : List Char) :
    readEscape? (['u', '0', '0', hexDigit (n / 16), hexDigit (n % 16)] ++ r) =
      some (Char.ofNat n, r) := by
  have hhigh := hexValue?_hexDigit (n / 16) (by omega)
  have hlow := hexValue?_hexDigit (n % 16) (by omega)
  have hzero : hexValue? '0' = some 0 := by decide
  have hfour : hexFour? (['0', '0', hexDigit (n / 16), hexDigit (n % 16)] ++ r) =
      some (((0 * 16 + 0) * 16 + n / 16) * 16 + n % 16, r) := by
    simp [hexFour?, hhigh, hlow, hzero]
  have hvalue : ((0 * 16 + 0) * 16 + n / 16) * 16 + n % 16 = n := by omega
  have hsurrogate : ¬ (0xD800 ≤ n ∧ n < 0xDC00) := by omega
  have hsurrogate' : ¬ (0xDC00 ≤ n ∧ n < 0xE000) := by omega
  rw [hvalue] at hfour
  show (hexFour? (['0', '0', hexDigit (n / 16), hexDigit (n % 16)] ++ r)).bind _ = _
  rw [hfour, Option.bind_some]
  simp only [if_neg hsurrogate, if_neg hsurrogate']

theorem readQuoted?_backslash {fuel : Nat} {c : Char} {cs r : List Char}
    (h : readEscape? cs = some (c, r)) :
    readQuoted? (fuel + 1) ('\\' :: cs) = (readQuoted? fuel r).map fun (cs, r) => (c :: cs, r) := by
  rw [readQuoted?, h]
  simp only [Option.bind_eq_bind, Option.bind_some]
  cases readQuoted? fuel r <;> rfl

theorem readQuoted?_plain {fuel : Nat} {c : Char} (hquote : c ≠ '\x22') (hslash : c ≠ '\\')
    (hcontrol : ¬ c.toNat < 0x20) (r : List Char) :
    readQuoted? (fuel + 1) (c :: r) = (readQuoted? fuel r).map fun (cs, r) => (c :: cs, r) := by
  rw [readQuoted?]
  · rw [if_neg hcontrol]
  · exact hquote
  · exact hslash

/-- Each character is read from what is written for it. -/
theorem readQuoted?_escaped (fuel : Nat) (c : Char) (r : List Char) :
    readQuoted? (fuel + 1) (escaped c ++ r) = (readQuoted? fuel r).map fun (cs, r) => (c :: cs, r) := by
  have heq : ∀ {d : Char}, c.toNat = d.toNat → c = d := fun h => by
    rw [← Char.ofNat_toNat c, h, Char.ofNat_toNat]
  unfold escaped
  split
  case h_1 h =>
    obtain rfl : c = '\x22' := heq h
    exact readQuoted?_backslash rfl
  case h_2 h =>
    obtain rfl : c = '\\' := heq h
    exact readQuoted?_backslash rfl
  case h_3 h =>
    obtain rfl : c = '\x08' := heq h
    exact readQuoted?_backslash rfl
  case h_4 h =>
    obtain rfl : c = '\t' := heq h
    exact readQuoted?_backslash rfl
  case h_5 h =>
    obtain rfl : c = '\n' := heq h
    exact readQuoted?_backslash rfl
  case h_6 h =>
    obtain rfl : c = '\x0c' := heq h
    exact readQuoted?_backslash rfl
  case h_7 h =>
    obtain rfl : c = '\r' := heq h
    exact readQuoted?_backslash rfl
  case h_8 hquote hslash _ _ _ _ _ =>
    split
    · next hcontrol =>
      have hread := readEscape?_control hcontrol r
      rw [Char.ofNat_toNat] at hread
      exact readQuoted?_backslash hread
    · next hcontrol =>
      refine readQuoted?_plain ?_ ?_ hcontrol r
      · exact fun h => hquote (h ▸ rfl)
      · exact fun h => hslash (h ▸ rfl)

theorem readQuoted?_quoted (cs r : List Char) {fuel : Nat} (hfuel : cs.length < fuel) :
    readQuoted? fuel (cs.flatMap escaped ++ '\x22' :: r) = some (cs, r) := by
  induction cs generalizing fuel with
  | nil =>
    obtain ⟨fuel, rfl⟩ := Nat.exists_eq_add_of_lt hfuel
    rfl
  | cons c cs ih =>
    cases fuel with
    | zero => cases hfuel
    | succ fuel =>
      have hrest : cs.length < fuel := Nat.lt_of_succ_lt_succ hfuel
      rw [List.flatMap_cons, List.append_assoc, readQuoted?_escaped, ih hrest]
      rfl

theorem length_le_flatMap_escaped (cs : List Char) : cs.length ≤ (cs.flatMap escaped).length := by
  have hone : ∀ c, 1 ≤ (escaped c).length := by
    intro c
    unfold escaped
    split
    case h_8 =>
      split
      · exact Nat.le_add_left _ _
      · exact Nat.le_refl _
    all_goals exact Nat.le_add_left _ _
  induction cs with
  | nil => exact Nat.le_refl _
  | cons c cs ih =>
    have hc := hone c
    rw [List.flatMap_cons, List.length_append, List.length_cons]
    omega

theorem quoted_append (s : String) (tail : List Char) :
    quoted s ++ tail = '\x22' :: (s.toList.flatMap escaped ++ '\x22' :: tail) := by
  rw [quoted, List.cons_append, List.cons_append, List.append_assoc]
  rfl

theorem length_quoted (s : String) : s.toList.length + 2 ≤ (quoted s).length := by
  have hlong := length_le_flatMap_escaped s.toList
  rw [quoted, List.cons_append, List.length_cons, List.length_append]
  exact Nat.add_le_add_right hlong 2

end Quoted

/-- The number is finite, and its text is read as the number itself. -/
def ReadsBack (x : Decimal.Binary64) : Prop :=
  x.isFinite = true ∧ readNumber? x.text = some (float x, [])

/-- A value whose text can be read again, where lists and objects may stand so deep in one another. -/
inductive Readable : (depth : Nat) → Json → Prop where
  | null {depth} : Readable depth null
  | bool {depth b} : Readable depth (bool b)
  | int {depth i} : FitsWord i → Readable depth (int i)
  | float {depth x} : ReadsBack x → Readable depth (float x)
  | str {depth s} : Readable depth (str s)
  | arr {depth items} : (∀ j ∈ items, Readable depth j) → Readable (depth + 1) (arr items)
  | obj {depth fields} : Keyed.Sorted fields → (∀ f ∈ fields, Readable depth f.2) →
      Readable (depth + 1) (obj fields)

/-- With fuel enough, the text is read as the value, whatever follows. -/
def Reads (depth : Nat) (j : Json) : Prop :=
  ∀ fuel, 2 * j.chars.length ≤ fuel → ∀ rest, Ends rest →
    readValue? fuel depth (j.chars ++ rest) = some (j, rest)

section Values

variable {fuel depth : Nat} {rest : List Char}

theorem skipGap_of_not {c : Char} (h : isGap c = false) (cs : List Char) :
    skipGap (c :: cs) = c :: cs := by
  rw [skipGap, List.dropWhile_cons_of_neg (by simp [h])]

theorem not_gap_of_number {c : Char} (h : c = '-' ∨ c.isDigit = true) : isGap c = false := by
  have hblank : ∀ d ∈ [' ', '\t', '\n', '\r'], ¬ (d = '-' ∨ d.isDigit = true) := by simp
  cases hgap : isGap c with
  | false => rfl
  | true =>
    have hmem : c ∈ [' ', '\t', '\n', '\r'] := by
      simpa [isGap, or_assoc] using hgap
    exact absurd h (hblank c hmem)

/-- A number starts like no other value. -/
theorem readValue?_number {cs : List Char} {j : Json} (h : readNumber? cs = some (j, []))
    (hrest : Ends rest) : readValue? (fuel + 1) depth (cs ++ rest) = some (j, rest) := by
  obtain ⟨c, r, rfl, hc⟩ := readNumber?_head h
  have hread := readNumber?_append hrest h
  have hfall : readValue? (fuel + 1) depth (c :: (r ++ rest)) = readNumber? (c :: (r ++ rest)) := by
    have hstart : ∀ d ∈ ['n', 't', 'f', '\x22', '[', '\x7b'], ¬ (d = '-' ∨ d.isDigit = true) := by
      simp
    have hother : ∀ d ∈ ['n', 't', 'f', '\x22', '[', '\x7b'], ∀ {l l' : List Char},
        c :: l = d :: l' → False := fun d hd _ _ heq =>
      hstart d hd ((List.cons.inj heq).1 ▸ hc)
    rw [readValue?, skipGap_of_not (not_gap_of_number hc)]
    split
    case h_7 => rfl
    all_goals next heq => exact (hother _ (by simp) heq).elim
  rw [List.cons_append] at hread ⊢
  rw [hfall, hread]
  rfl

theorem floatChars_eq {x : Decimal.Binary64} (h : ReadsBack x) : (float x).chars = x.text := by
  rw [chars, floatChars, if_pos h.1]

/-- A value starts neither with a blank nor with a closing bracket. -/
theorem chars_head {j : Json} (h : Readable depth j) :
    ∃ c cs, j.chars = c :: cs ∧ isGap c = false ∧ c ≠ ']' := by
  have hnumber : ∀ {cs j}, readNumber? cs = some (j, []) →
      ∃ c r, cs = c :: r ∧ isGap c = false ∧ c ≠ ']' := by
    intro cs j h
    obtain ⟨c, r, hcs, hc⟩ := readNumber?_head h
    refine ⟨c, r, hcs, not_gap_of_number hc, ?_⟩
    rintro rfl
    exact absurd hc (by decide)
  cases h with
  | null => exact ⟨_, _, rfl, by decide, by decide⟩
  | @bool _ b => cases b <;> exact ⟨_, _, rfl, by decide, by decide⟩
  | int hi => exact hnumber (readNumber?_int hi)
  | float hx => exact floatChars_eq hx ▸ hnumber hx.2
  | str => exact ⟨_, _, rfl, by decide, by decide⟩
  | arr => exact ⟨_, _, rfl, by decide, by decide⟩
  | obj => exact ⟨_, _, rfl, by decide, by decide⟩

theorem itemChars_head {j : Json} (h : Readable depth j) (items : List Json) :
    ∃ c cs, itemChars (j :: items) = c :: cs ∧ isGap c = false ∧ c ≠ ']' := by
  obtain ⟨c, cs, hchars, hc⟩ := chars_head h
  cases items with
  | nil => exact ⟨c, cs, hchars, hc⟩
  | cons k items =>
    refine ⟨c, cs ++ ',' :: itemChars (k :: items), ?_, hc⟩
    rw [← List.cons_append, ← hchars]
    rfl

theorem fieldChars_head (f : String × Json) (fields : List (String × Json)) :
    ∃ cs, fieldChars (f :: fields) = '\x22' :: cs := by
  obtain ⟨k, j⟩ := f
  cases fields <;> exact ⟨_, rfl⟩

theorem readItems?_itemChars {items : List Json} (hne : items ≠ [])
    (hitems : ∀ j ∈ items, Reads depth j) (hfuel : 2 * (itemChars items).length + 1 ≤ fuel) :
    readItems? fuel depth (itemChars items ++ ']' :: rest) = some (items, rest) := by
  induction items generalizing fuel with
  | nil => exact absurd rfl hne
  | cons j items ih =>
    cases fuel with
    | zero => omega
    | succ fuel =>
      have hj := hitems j List.mem_cons_self
      cases items with
      | nil =>
        rw [itemChars] at hfuel ⊢
        rw [readItems?, hj fuel (by omega) _ (ends_cons (by simp) rest)]
        rfl
      | cons k items =>
        have hchars : itemChars (j :: k :: items) = j.chars ++ ',' :: itemChars (k :: items) := rfl
        have hlength : (itemChars (j :: k :: items)).length =
            j.chars.length + ((itemChars (k :: items)).length + 1) := by
          rw [hchars, List.length_append, List.length_cons]
        have hlater : readItems? fuel depth (itemChars (k :: items) ++ ']' :: rest) =
            some (k :: items, rest) :=
          ih (List.cons_ne_nil _ _) (fun j hj => hitems j (List.mem_cons_of_mem _ hj)) (by omega)
        rw [hchars, List.append_assoc, List.cons_append, readItems?,
          hj fuel (by omega) _ (ends_cons (by simp) _)]
        simp only [Option.bind_eq_bind, Option.bind_some]
        rw [skipGap_of_not (by decide)]
        simp only [hlater, Option.bind_some]

section Entry

variable {k : String} {j : Json}

theorem readFields?_last (hj : Reads depth j)
    (hfuel : 2 * (quoted k ++ ':' :: j.chars).length ≤ fuel) :
    readFields? (fuel + 1) depth (quoted k ++ ':' :: j.chars ++ '\x7d' :: rest) =
      some ([(k, j)], rest) := by
  have hlong := length_quoted k
  rw [List.length_append, List.length_cons] at hfuel
  rw [List.append_assoc, quoted_append, readFields?, skipGap_of_not (by decide)]
  simp only [Option.bind_eq_bind]
  rw [readQuoted?_quoted _ _ (by omega), Option.bind_some, List.cons_append]
  simp only
  rw [skipGap_of_not (by decide)]
  simp only
  rw [hj fuel (by omega) _ (ends_cons (by simp) _), Option.bind_some]
  simp only
  rw [skipGap_of_not (by decide), String.ofList_toList]
  rfl

theorem readFields?_more {tail : List Char} {fields : List (String × Json)} (hj : Reads depth j)
    (hfuel : 2 * (quoted k ++ ':' :: j.chars).length ≤ fuel)
    (hlater : readFields? fuel depth tail = some (fields, rest)) :
    readFields? (fuel + 1) depth (quoted k ++ ':' :: j.chars ++ ',' :: tail) =
      some ((k, j) :: fields, rest) := by
  have hlong := length_quoted k
  rw [List.length_append, List.length_cons] at hfuel
  rw [List.append_assoc, quoted_append, readFields?, skipGap_of_not (by decide)]
  simp only [Option.bind_eq_bind]
  rw [readQuoted?_quoted _ _ (by omega), Option.bind_some, List.cons_append]
  simp only
  rw [skipGap_of_not (by decide)]
  simp only
  rw [hj fuel (by omega) _ (ends_cons (by simp) _), Option.bind_some]
  simp only
  rw [skipGap_of_not (by decide)]
  simp only
  rw [hlater, Option.bind_some, String.ofList_toList]

end Entry

theorem readFields?_fieldChars {fields : List (String × Json)} (hne : fields ≠ [])
    (hfields : ∀ f ∈ fields, Reads depth f.2)
    (hfuel : 2 * (fieldChars fields).length + 1 ≤ fuel) :
    readFields? fuel depth (fieldChars fields ++ '\x7d' :: rest) = some (fields, rest) := by
  induction fields generalizing fuel with
  | nil => exact absurd rfl hne
  | cons f fields ih =>
    obtain ⟨k, j⟩ := f
    have hj : Reads depth j := hfields (k, j) List.mem_cons_self
    cases fuel with
    | zero => omega
    | succ fuel =>
      cases fields with
      | nil => exact readFields?_last hj (Nat.le_of_succ_le_succ hfuel)
      | cons g fields =>
        have hchars : fieldChars ((k, j) :: g :: fields) =
            quoted k ++ ':' :: j.chars ++ ',' :: fieldChars (g :: fields) := rfl
        rw [hchars, List.length_append, List.length_cons] at hfuel
        have hlater : readFields? fuel depth (fieldChars (g :: fields) ++ '\x7d' :: rest) =
            some (g :: fields, rest) :=
          ih (List.cons_ne_nil _ _) (fun f hf => hfields f (List.mem_cons_of_mem _ hf)) (by omega)
        rw [hchars, List.append_assoc _ (',' :: _)]
        exact readFields?_more hj (by omega) hlater

theorem reads_of_number {j : Json} {cs : List Char} (hchars : j.chars = cs)
    (h : readNumber? cs = some (j, [])) : Reads depth j := by
  intro fuel hfuel rest hrest
  obtain ⟨c, r, hcons, -⟩ := readNumber?_head h
  rw [hchars] at hfuel ⊢
  cases fuel with
  | zero =>
    rw [hcons] at hfuel
    cases hfuel
  | succ fuel => exact readValue?_number h hrest

theorem reads_null : Reads depth null := by
  intro fuel hfuel rest _
  cases fuel with
  | zero => cases hfuel
  | succ fuel => rfl

theorem reads_bool (b : Bool) : Reads depth (bool b) := by
  intro fuel hfuel rest _
  cases fuel with
  | zero => cases b <;> cases hfuel
  | succ fuel => cases b <;> rfl

theorem reads_str (s : String) : Reads depth (str s) := by
  intro fuel hfuel rest _
  have hlong := length_quoted s
  rw [chars] at hfuel ⊢
  cases fuel with
  | zero => omega
  | succ fuel =>
    rw [quoted_append, readValue?, skipGap_of_not (by decide)]
    simp only
    rw [readQuoted?_quoted _ _ (by omega), Option.map_some, String.ofList_toList]

theorem reads_arr {items : List Json} (hitems : ∀ j ∈ items, Readable depth j)
    (hreads : ∀ j ∈ items, Reads depth j) : Reads (depth + 1) (arr items) := by
  intro fuel hfuel rest _
  cases fuel with
  | zero => cases hfuel
  | succ fuel =>
    cases items with
    | nil => rfl
    | cons j items =>
      have hchars : (arr (j :: items)).chars = '[' :: (itemChars (j :: items) ++ [']']) := rfl
      obtain ⟨c, tail, hfirst, hgap, hclose⟩ := itemChars_head (hitems j List.mem_cons_self) items
      have hlater : readItems? fuel depth (itemChars (j :: items) ++ ']' :: rest) =
          some (j :: items, rest) := by
        refine readItems?_itemChars (List.cons_ne_nil _ _) hreads ?_
        rw [hchars, List.length_cons, List.length_append, List.length_singleton] at hfuel
        omega
      rw [hchars, List.cons_append, List.append_assoc, List.singleton_append, readValue?,
        skipGap_of_not (by decide)]
      simp only
      rw [hfirst, List.cons_append] at hlater ⊢
      rw [skipGap_of_not hgap]
      split
      · next heq => cases heq
      · next heq => exact absurd (List.cons.inj heq).1 hclose
      · next hdepth _ =>
        cases hdepth
        rw [hlater, Option.map_some]

theorem reads_obj {fields : List (String × Json)} (hsorted : Keyed.Sorted fields)
    (hreads : ∀ f ∈ fields, Reads depth f.2) : Reads (depth + 1) (obj fields) := by
  intro fuel hfuel rest _
  cases fuel with
  | zero => cases hfuel
  | succ fuel =>
    cases fields with
    | nil => rfl
    | cons f fields =>
      have hchars : (obj (f :: fields)).chars = '\x7b' :: (fieldChars (f :: fields) ++ ['\x7d']) :=
        rfl
      obtain ⟨tail, hfirst⟩ := fieldChars_head f fields
      have hlater : readFields? fuel depth (fieldChars (f :: fields) ++ '\x7d' :: rest) =
          some (f :: fields, rest) := by
        refine readFields?_fieldChars (List.cons_ne_nil _ _) hreads ?_
        rw [hchars, List.length_cons, List.length_append, List.length_singleton] at hfuel
        omega
      rw [hchars, List.cons_append, List.append_assoc, List.singleton_append, readValue?,
        skipGap_of_not (by decide)]
      simp only
      rw [hfirst, List.cons_append] at hlater ⊢
      rw [skipGap_of_not (by decide)]
      split
      · next heq => cases heq
      · next heq => exact absurd (List.cons.inj heq).1 (by decide)
      · next hdepth _ =>
        cases hdepth
        rw [hlater, Option.map_some, object, Keyed.ofList_of_sorted hsorted]

/-- The text of a value is read as the value, whatever follows. -/
theorem Readable.reads {j : Json} (h : Readable depth j) : Reads depth j := by
  induction h with
  | null => exact reads_null
  | bool => exact reads_bool _
  | int hi => exact reads_of_number rfl (readNumber?_int hi)
  | float hx => exact reads_of_number (floatChars_eq hx) hx.2
  | str => exact reads_str _
  | arr hitems ih => exact reads_arr hitems ih
  | obj hsorted _ ih => exact reads_obj hsorted ih

end Values

theorem read?_text {j : Json} (h : Readable maxDepth j) : read? j.text = some j := by
  have hread := h.reads (2 * j.chars.length + 2) (Nat.le_add_right _ 2) [] ends_nil
  rw [List.append_nil] at hread
  rw [read?, text]
  simp only [String.toList_ofList]
  rw [hread]
  rfl

end Json

end WorkbookPlan
