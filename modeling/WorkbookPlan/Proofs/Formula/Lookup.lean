import WorkbookPlan.Formula.FieldReference
import WorkbookPlan.Formula.Lookup
import WorkbookPlan.Proofs.Formula.Call
import WorkbookPlan.Proofs.Text.Blank

/-! Replacing lookup calls. -/
namespace WorkbookPlan.Formula

/-- The name of the replaced function with its parenthesis, in any letter case. -/
def IsLookupName (written : List Char) : Prop :=
  Text.asciiUpper written = "XLOOKUP(".toList

instance (written : List Char) : Decidable (IsLookupName written) :=
  inferInstanceAs (Decidable (Text.asciiUpper written = "XLOOKUP(".toList))

section Call

variable {before : Option Char} {cs key within result after : List Char}

/-- A call is replaced if its name is not the tail of a longer word and it has three arguments. -/
theorem lookupCall?_eq_some_iff :
    lookupCall? before cs = some (key, within, result, after) ↔
      before.any Text.isNameChar = false ∧
      ∃ written inner k w r more, IsLookupName written ∧ cs = written ++ inner ∧
        splitArgs 0 false inner = some ⟨k, w :: r :: more, after⟩ ∧
        key = Text.trim k ∧ within = Text.trim w ∧ result = Text.trim r := by
  unfold lookupCall?
  constructor
  · intro h
    split at h
    · cases h
    · next hbefore =>
      split at h
      · cases h
      · next inner hinner =>
        obtain ⟨written, hcs, hwritten⟩ := afterCall?_eq_some_iff.1 hinner
        split at h
        · next k w r more rest hsplit =>
          cases h
          exact ⟨by simpa using hbefore, written, inner, k, w, r, more, hwritten, hcs, hsplit,
            rfl, rfl, rfl⟩
        · cases h
  · rintro ⟨hbefore, written, inner, k, w, r, more, hwritten, hcs, hsplit, rfl, rfl, rfl⟩
    have hafter : afterCall? "XLOOKUP(".toList cs = some inner :=
      afterCall?_eq_some_iff.2 ⟨written, hcs, hwritten⟩
    simp only [hbefore, hafter, hsplit, Bool.false_eq_true, if_false]

theorem lookupCall?_eq_none_iff : lookupCall? before cs = none ↔
    (before.any Text.isNameChar = false → ∀ written inner a, IsLookupName written →
      cs = written ++ inner → splitArgs 0 false inner = some a → a.later.length < 2) := by
  constructor
  · intro h hbefore written inner ⟨k, later, after⟩ hwritten hcs hsplit
    by_contra hlength
    obtain ⟨w, r, more, rfl⟩ : ∃ w r more, later = w :: r :: more := by
      match later, hlength with
      | [], hlength => exact absurd Nat.zero_lt_two hlength
      | [_], hlength => exact absurd Nat.one_lt_two hlength
      | w :: r :: more, _ => exact ⟨w, r, more, rfl⟩
    rw [lookupCall?_eq_some_iff.2
      ⟨hbefore, written, inner, k, w, r, more, hwritten, hcs, hsplit, rfl, rfl, rfl⟩] at h
    cases h
  · intro h
    rw [Option.eq_none_iff_forall_not_mem]
    rintro ⟨key, within, result, after⟩ hcall
    obtain ⟨hbefore, written, inner, k, w, r, more, hwritten, hcs, hsplit, -⟩ :=
      lookupCall?_eq_some_iff.1 hcall
    have hlength := h hbefore written inner _ hwritten hcs hsplit
    simp only [List.length_cons] at hlength
    omega

end Call

def replacement (key within result : List Char) : List Char :=
  "INDEX(".toList ++ result ++ ", MATCH(".toList ++ key ++ ", ".toList ++ within ++ ", 0))".toList

section Walk

variable {before : Option Char} {c : Char} {cs key within result after : List Char}

theorem replaceLookups_nil : replaceLookups before [] = ([], false) := by
  rw [replaceLookups]

theorem replaceLookups_of_call (h : lookupCall? before cs = some (key, within, result, after)) :
    replaceLookups before cs =
      (replacement (replaceLookups none key).1 (replaceLookups none within).1
        (replaceLookups none result).1 ++ (replaceLookups (some ')') after).1, true) := by
  cases cs with
  | nil => simp [lookupCall?, afterCall?, Text.afterLead?, Text.asciiUpper] at h
  | cons c cs =>
    rw [replaceLookups]
    split
    · next h' =>
      rw [h] at h'
      cases h'
      rfl
    · next h' => simp [h] at h'

theorem replaceLookups_of_none (h : lookupCall? before (c :: cs) = none) :
    replaceLookups before (c :: cs) =
      (c :: (replaceLookups (some c) cs).1, (replaceLookups (some c) cs).2) := by
  rw [replaceLookups]
  split
  · next h' => simp [h] at h'
  · rfl

/-- What holds of the empty text, of a text behind a call and of a text behind one more character
holds of every text. -/
theorem lookups_induction {P : Option Char → List Char → Prop} (nil : ∀ before, P before [])
    (call : ∀ before cs key within result after,
      lookupCall? before cs = some (key, within, result, after) → P none key → P none within →
        P none result → P (some ')') after → P before cs)
    (skip : ∀ before c cs, lookupCall? before (c :: cs) = none → P (some c) cs →
      P before (c :: cs)) (before : Option Char) (cs : List Char) : P before cs := by
  induction before, cs using replaceLookups.induct with
  | case1 before => exact nil before
  | case2 before c cs key within result after h hafter hresult hkey hwithin =>
    exact call _ _ _ _ _ _ h hkey hwithin hresult hafter
  | case3 before c cs h _ _ _ ih => exact skip _ _ _ h ih

end Walk

/-- No call that begins in `x` is replaced, with `y` behind `x`. -/
def Kept (before : Option Char) (x y : List Char) : Prop :=
  ∀ pre c post, x = pre ++ c :: post →
    lookupCall? (pre.getLast?.or before) (c :: (post ++ y)) = none

section Kept

variable {before before' : Option Char} {c : Char} {cs x x' y : List Char}

theorem lookupCall?_congr (h : before.any Text.isNameChar = before'.any Text.isNameChar) :
    lookupCall? before cs = lookupCall? before' cs := by
  unfold lookupCall?
  rw [h]

theorem kept_nil : Kept before [] y := by
  intro pre c post h
  simp at h

theorem kept_cons : Kept before (c :: x) y ↔
    lookupCall? before (c :: (x ++ y)) = none ∧ Kept (some c) x y := by
  constructor
  · intro h
    refine ⟨h [] c x rfl, fun pre d post hx => ?_⟩
    have hd := h (c :: pre) d post (by rw [hx, List.cons_append])
    rwa [List.getLast?_cons, Option.some_or, ← Option.or_some] at hd
  · rintro ⟨hc, hx⟩ pre d post h
    cases pre with
    | nil =>
      cases h
      exact hc
    | cons e pre =>
      obtain ⟨rfl, hpre⟩ := List.cons.inj h
      rw [List.getLast?_cons, Option.some_or, ← Option.or_some]
      exact hx pre d post hpre

theorem kept_append : Kept before (x ++ x') y ↔
    Kept before x (x' ++ y) ∧ Kept (x.getLast?.or before) x' y := by
  induction x generalizing before with
  | nil => simp [kept_nil]
  | cons c x ih =>
    rw [List.cons_append, kept_cons, kept_cons, ih, List.append_assoc, and_assoc,
      List.getLast?_cons, Option.some_or, ← Option.or_some]

theorem kept_congr (h : before.any Text.isNameChar = before'.any Text.isNameChar) :
    Kept before x y ↔ Kept before' x y := by
  cases x with
  | nil => exact iff_of_true kept_nil kept_nil
  | cons c x => rw [kept_cons, kept_cons, lookupCall?_congr h]

/-- A text without a call is copied. -/
theorem replaceLookups_append (h : Kept before x y) :
    replaceLookups before (x ++ y) =
      (x ++ (replaceLookups (x.getLast?.or before) y).1,
        (replaceLookups (x.getLast?.or before) y).2) := by
  induction x generalizing before with
  | nil => rfl
  | cons c x ih =>
    obtain ⟨hc, hx⟩ := kept_cons.1 h
    rw [List.cons_append, replaceLookups_of_none hc, ih hx, List.getLast?_cons, Option.some_or,
      ← Option.or_some]
    rfl

theorem replaceLookups_of_kept (h : Kept before cs []) :
    replaceLookups before cs = (cs, false) := by
  have hcopy := replaceLookups_append h
  rwa [replaceLookups_nil, List.append_nil] at hcopy

/-- A text is left alone just if no call in it can be replaced. -/
theorem kept_iff : Kept before cs [] ↔ (replaceLookups before cs).2 = false := by
  constructor
  · intro h
    rw [replaceLookups_of_kept h]
  · induction before, cs using lookups_induction with
    | nil before => exact fun _ => kept_nil
    | call before cs key within result after h =>
      intro hfalse
      rw [replaceLookups_of_call h] at hfalse
      cases hfalse
    | skip before c cs h ih =>
      intro hfalse
      rw [replaceLookups_of_none h] at hfalse
      exact kept_cons.2 ⟨by rw [List.append_nil, h], ih hfalse⟩

theorem withoutLookups?_eq_none_iff {f : String} :
    withoutLookups? f = none ↔ Kept none f.toList [] := by
  rw [kept_iff, withoutLookups?]
  cases replaceLookups none f.toList with
  | mk out changed => cases changed <;> simp

theorem withoutLookups?_eq_some_iff {f g : String} :
    withoutLookups? f = some g ↔ replaceLookups none f.toList = (g.toList, true) := by
  rw [withoutLookups?]
  cases replaceLookups none f.toList with
  | mk out changed => cases changed <;> simp [← String.toList_inj]

end Kept

/-- The place behind this text is inside a literal. A doubled quote in a literal counts as two. -/
def InLiteral (before : List Char) : Prop :=
  before.count '\x22' % 2 = 1

instance (before : List Char) : Decidable (InLiteral before) :=
  inferInstanceAs (Decidable (before.count '\x22' % 2 = 1))

/-- The name of the lookup function stands in longer words and in literals only, and no literal
closes a parenthesis behind it. -/
def Dormant (cs : List Char) : Prop :=
  ∀ pre written post, cs = pre ++ written ++ post → IsLookupName written →
    pre.getLast?.any Text.isNameChar = false →
      InLiteral pre ∧ ∀ u v, post = u ++ ')' :: v → ¬ InLiteral (pre ++ written ++ u)

section Dormant

variable {cs written : List Char}

theorem count_quote_of_isLookupName (h : IsLookupName written) : written.count '\x22' = 0 := by
  rw [List.count_eq_zero]
  intro hmem
  have hquote : '\x22' ∈ Text.asciiUpper written :=
    List.mem_map.2 ⟨'\x22', hmem, by decide⟩
  rw [h] at hquote
  exact absurd hquote (by decide)

/-- The parenthesis that would close the call stands outside literals by the count from the call on,
so inside one by the count from the front. -/
theorem Dormant.kept (h : Dormant cs) : Kept none cs [] := by
  intro pre c post hcs
  rw [Option.or_none, List.append_nil, lookupCall?_eq_none_iff]
  intro hbefore written inner a hwritten hpost hsplit
  obtain ⟨u, v, rfl, hu⟩ := exists_close hsplit
  obtain ⟨hinside, houtside⟩ := h pre written (u ++ ')' :: v)
    (by rw [hcs, hpost, List.append_assoc]) hwritten hbefore
  refine absurd ?_ (houtside u v rfl)
  have hname := count_quote_of_isLookupName hwritten
  simp only [InLiteral, List.count_append, Bool.toNat_false] at hinside hu ⊢
  omega

theorem Dormant.trim (h : Dormant cs) : Dormant (Text.trim cs) := by
  obtain ⟨a, b, hcs, ha, hb⟩ := Text.exists_trim cs
  intro pre written post htrim hwritten hbefore
  have hquotes : a.count '\x22' = 0 := by
    rw [List.count_eq_zero]
    exact fun hmem => absurd (ha _ hmem) (by decide)
  have hword : (a ++ pre).getLast?.any Text.isNameChar = false := by
    rw [List.getLast?_append]
    cases hpre : pre.getLast? with
    | some c => simpa [hpre] using hbefore
    | none =>
      cases hlast : a.getLast? with
      | none => rfl
      | some c => exact Text.isNameChar_of_isBlank (ha c (List.mem_of_getLast? hlast))
  obtain ⟨hinside, houtside⟩ := h (a ++ pre) written (post ++ b)
    (by rw [hcs, htrim]; simp only [List.append_assoc]) hwritten hword
  have hsame : ∀ x, InLiteral (a ++ x) ↔ InLiteral x := fun x => by
    simp only [InLiteral, List.count_append, hquotes, Nat.zero_add]
  refine ⟨(hsame pre).1 hinside, fun u v hpost hu => ?_⟩
  apply houtside u (v ++ b) (by rw [hpost, List.append_assoc]; rfl)
  simp only [List.append_assoc] at hu ⊢
  exact (hsame _).2 hu

/-- The name of the lookup function in literals only, and no closing parenthesis in any. -/
theorem dormant_of_places
    (hinside : ∀ n < cs.length, IsLookupName ((cs.drop n).take 8) →
      (cs.take n).getLast?.any Text.isNameChar = false → InLiteral (cs.take n))
    (houtside : ∀ n < cs.length, cs[n]? = some ')' → ¬ InLiteral (cs.take n)) : Dormant cs := by
  rintro pre written post rfl hwritten hbefore
  have hlength : written.length = 8 := by
    rw [← Text.length_asciiUpper, hwritten]
    rfl
  have hbound : pre.length < (pre ++ written ++ post).length := by
    simp only [List.length_append]
    omega
  have htake : (pre ++ written ++ post).take pre.length = pre := by
    rw [List.append_assoc, List.take_left]
  have hname : ((pre ++ written ++ post).drop pre.length).take 8 = written := by
    rw [List.append_assoc, List.drop_left, ← hlength, List.take_left]
  refine ⟨?_, fun u v hpost => ?_⟩
  · have hpre := hinside pre.length hbound (by rwa [hname]) (by rwa [htake])
    rwa [htake] at hpre
  · subst hpost
    have hplace : pre ++ written ++ (u ++ ')' :: v) = (pre ++ written ++ u) ++ ')' :: v :=
      (List.append_assoc ..).symm
    have hclose := houtside (pre ++ written ++ u).length
    rw [hplace, List.take_left] at hclose
    apply hclose
    · simp only [List.length_append, List.length_cons]
      omega
    · simp

end Dormant

section Reference

variable {c : Char} {name written : List Char}

theorem notMem_of_isLookupName (h : IsLookupName written) (hc : c.toUpper ∉ "XLOOKUP(".toList) :
    c ∉ written := by
  intro hmem
  apply hc
  rw [← h]
  exact List.mem_map.2 ⟨c, hmem, rfl⟩

theorem ne_nil_of_isLookupName (h : IsLookupName written) : written ≠ [] := by
  rintro rfl
  exact absurd h (by decide)

/-- No call reaches over the brackets around a name. -/
theorem exists_of_fieldReference {pre post : List Char} (hwritten : IsLookupName written)
    (h : fieldReference name = pre ++ written ++ post) :
    ∃ u v, pre = '@' :: '[' :: u ∧ post = v ++ [']'] ∧ name = u ++ written ++ v := by
  obtain ⟨w, ws, rfl⟩ := List.exists_cons_of_ne_nil (ne_nil_of_isLookupName hwritten)
  have hreference : '@' :: '[' :: (name ++ [']']) = pre ++ (w :: ws) ++ post := h
  match pre with
  | [] =>
    obtain ⟨rfl, -⟩ := List.cons.inj hreference
    exact absurd List.mem_cons_self (notMem_of_isLookupName hwritten (by decide))
  | [p] =>
    obtain ⟨rfl, -⟩ := List.cons.inj (List.cons.inj hreference).2
    exact absurd List.mem_cons_self (notMem_of_isLookupName hwritten (by decide))
  | p :: q :: u =>
    simp only [List.cons_append, List.cons.injEq] at hreference
    obtain ⟨rfl, rfl, hinner⟩ := hreference
    rcases List.eq_nil_or_concat post with rfl | ⟨v, d, rfl⟩
    · have hlast := congrArg List.getLast? hinner
      rw [List.append_nil, List.getLast?_concat,
        List.getLast?_append_of_ne_nil _ (by simp)] at hlast
      have hmem : ']' ∈ w :: ws := List.mem_of_getLast? hlast.symm
      exact absurd hmem (notMem_of_isLookupName hwritten (by decide))
    · rw [List.concat_eq_append] at hinner ⊢
      obtain ⟨hname, hd⟩ := List.append_inj' (hinner.trans (List.append_assoc ..).symm) rfl
      cases hd
      exact ⟨u, v, rfl, rfl, hname⟩

theorem Dormant.fieldReference (h : Dormant name) : Dormant (fieldReference name) := by
  intro pre written post hreference hwritten hbefore
  obtain ⟨u, v, rfl, rfl, hname⟩ := exists_of_fieldReference hwritten hreference
  have hword : u.getLast?.any Text.isNameChar = false := by
    cases hu : u.getLast? with
    | none => rfl
    | some c => simpa [List.getLast?_cons, hu] using hbefore
  have hsame : ∀ x, InLiteral ('@' :: '[' :: x) ↔ InLiteral x := fun x => by
    simp [InLiteral]
  obtain ⟨hinside, houtside⟩ := h u written v hname hwritten hword
  refine ⟨(hsame u).2 hinside, fun x y hxy hx => ?_⟩
  rcases List.eq_nil_or_concat y with rfl | ⟨z, d, rfl⟩
  · cases (List.append_inj' hxy rfl).2
  · rw [List.concat_eq_append, ← List.cons_append, ← List.append_assoc] at hxy
    exact houtside x z (List.append_inj' hxy rfl).1 ((hsame _).1 hx)

theorem Closed.fieldReference (h : Closed false name) : Closed false (fieldReference name) := by
  have hend : Plain [']'] := by decide
  exact .plain (by decide) (.plain (by decide) (h.append hend.closed))

end Reference

section Rewrite

variable {before : Option Char} {a b c x y : List Char} {more : List (List Char)}

theorem lookupCall?_head {c : Char} {cs : List Char} (hc : c.toUpper ≠ 'X') :
    lookupCall? before (c :: cs) = none := by
  rw [lookupCall?_eq_none_iff]
  intro _ written inner a hwritten hcs _
  obtain ⟨w, ws, rfl⟩ := List.exists_cons_of_ne_nil (ne_nil_of_isLookupName hwritten)
  obtain ⟨rfl, -⟩ := List.cons.inj hcs
  exact absurd (List.cons.inj hwritten).1 hc

theorem kept_of_notMem (h : 'X' ∉ Text.asciiUpper x) : Kept before x y := by
  rintro pre c post rfl
  apply lookupCall?_head
  intro hc
  exact h (List.mem_map.2 ⟨c, List.mem_append_right _ List.mem_cons_self, hc⟩)

/-- Whatever a call is cut into: the third piece goes to the front, the first two stay in order, and
the pieces behind them are dropped. -/
theorem withoutLookups?_of_args {f : String}
    (hf : f.toList = x ++ ("XLOOKUP(".toList ++ (a ++ Args.behind (b :: c :: more) y)))
    (hx : 'X' ∉ Text.asciiUpper x) (hword : x.getLast?.any Text.isNameChar = false)
    (hargs : ∀ z ∈ a :: b :: c :: more, IsArg z)
    (hkept : ∀ z ∈ [a, b, c], Kept none (Text.trim z) [])
    (hy : Kept (some ')') y []) :
    withoutLookups? f =
      some (String.ofList (x ++ (replacement (Text.trim a) (Text.trim b) (Text.trim c) ++ y))) := by
  obtain ⟨ha, hlater⟩ := List.forall_mem_cons.1 hargs
  have hsplit : splitArgs 0 false (a ++ Args.behind (b :: c :: more) y) =
      some ⟨a, b :: c :: more, y⟩ := splitArgs_eq_some_iff.2 ⟨ha, hlater, rfl⟩
  have hbefore : (x.getLast?.or none).any Text.isNameChar = false := by rwa [Option.or_none]
  have hcall := lookupCall?_eq_some_iff.2
    ⟨hbefore, "XLOOKUP(".toList, _, a, b, c, more, rfl, rfl, hsplit, rfl, rfl, rfl⟩
  simp only [List.forall_mem_cons] at hkept
  obtain ⟨hka, hkb, hkc, -⟩ := hkept
  rw [withoutLookups?_eq_some_iff, hf, replaceLookups_append (kept_of_notMem hx),
    replaceLookups_of_call hcall, replaceLookups_of_kept hka, replaceLookups_of_kept hkb,
    replaceLookups_of_kept hkc, replaceLookups_of_kept hy, String.toList_ofList]

end Rewrite

/-- A call with three closed arguments keeps them in another order, and the function's name inside a
literal is no call. -/
theorem withoutLookups?_respects_literals (a b c f : String) (name : List Char) :
    ((∀ x ∈ [a, b, c], Closed false x.toList ∧ Dormant x.toList) →
      withoutLookups? ("=XLOOKUP(" ++ a ++ "," ++ b ++ "," ++ c ++ ")") =
        some ("=INDEX(" ++ Text.trimmed c ++ ", MATCH(" ++ Text.trimmed a ++ ", " ++
          Text.trimmed b ++ ", 0))")) ∧
    (Closed false name ∧ Dormant name →
      Closed false (fieldReference name) ∧ Dormant (fieldReference name)) ∧
    (Dormant f.toList → withoutLookups? f = none) := by
  refine ⟨fun h => ?_, fun ⟨hclosed, hdormant⟩ => ?_, fun h => ?_⟩
  · have htext : ("=XLOOKUP(" ++ a ++ "," ++ b ++ "," ++ c ++ ")").toList =
        ['='] ++ ("XLOOKUP(".toList ++ (a.toList ++ Args.behind [b.toList, c.toList] [])) := by
      simp [Args.behind]
    have hargs : ∀ x ∈ [a.toList, b.toList, c.toList], IsArg x := by
      simpa using fun x hx => (h x hx).1.isArg
    have hkept : ∀ x ∈ [a.toList, b.toList, c.toList], Kept none (Text.trim x) [] := by
      simpa using fun x hx => (h x hx).2.trim.kept
    have hequals : "=INDEX(".toList = ['='] ++ "INDEX(".toList := rfl
    rw [withoutLookups?_of_args htext (by decide) (by decide) hargs hkept kept_nil,
      Option.some.injEq, ← String.toList_inj]
    unfold replacement Text.trimmed
    simp only [String.toList_append, String.toList_ofList, hequals, List.append_nil,
      List.append_assoc]
  · exact ⟨hclosed.fieldReference, hdormant.fieldReference⟩
  · exact withoutLookups?_eq_none_iff.2 h.kept

theorem withoutLookups?_respects_literals_price :
    (∀ x ∈ ["@[Price (net)]", " \"a, b\"", " Stock!A:A"],
        Closed false x.toList ∧ Dormant x.toList) ∧
      withoutLookups? "=XLOOKUP(@[Price (net)], \"a, b\", Stock!A:A)" =
        some "=INDEX(Stock!A:A, MATCH(@[Price (net)], \"a, b\", 0))" ∧
      (Closed false (fieldReference "Price (net)".toList) ∧
        Dormant (fieldReference "Price (net)".toList)) ∧
      Dormant "=A&\"XLOOKUP(\"&(B)".toList ∧ withoutLookups? "=A&\"XLOOKUP(\"&(B)" = none := by
  have hprice : Plain "Price ".toList := by decide
  have hnet : Plain "net".toList := by decide
  have hstock : Plain " Stock!A:A".toList := by decide
  have hname : Closed false "Price (net)".toList :=
    hprice.closed.append (.parentheses hnet.closed .nil)
  have hdormant : Dormant "Price (net)".toList := dormant_of_places (by decide) (by decide)
  obtain ⟨hcall, hreference, hliteral⟩ := withoutLookups?_respects_literals "@[Price (net)]"
    " \"a, b\"" " Stock!A:A" "=A&\"XLOOKUP(\"&(B)" "Price (net)".toList
  have hargs : ∀ x ∈ ["@[Price (net)]", " \"a, b\"", " Stock!A:A"],
      Closed false x.toList ∧ Dormant x.toList := by
    have hpair : Closed false (' ' :: '\x22' :: ("a, b".toList ++ ['\x22'])) :=
      .plain (by decide) (.literal (by decide) .nil)
    simp only [List.forall_mem_cons]
    exact ⟨hreference ⟨hname, hdormant⟩, ⟨hpair, dormant_of_places (by decide) (by decide)⟩,
      ⟨hstock.closed, dormant_of_places (by decide) (by decide)⟩,
      List.forall_mem_nil _⟩
  have htext : "=XLOOKUP(" ++ "@[Price (net)]" ++ "," ++ " \"a, b\"" ++ "," ++ " Stock!A:A" ++ ")" =
      "=XLOOKUP(@[Price (net)], \"a, b\", Stock!A:A)" := by decide
  have hresult : "=INDEX(" ++ Text.trimmed " Stock!A:A" ++ ", MATCH(" ++
      Text.trimmed "@[Price (net)]" ++ ", " ++ Text.trimmed " \"a, b\"" ++ ", 0))" =
      "=INDEX(Stock!A:A, MATCH(@[Price (net)], \"a, b\", 0))" := by cbv
  have hrewritten := hcall hargs
  rw [htext, hresult] at hrewritten
  have hquoted : Dormant "=A&\"XLOOKUP(\"&(B)".toList := dormant_of_places (by decide) (by decide)
  exact ⟨hargs, hrewritten, hreference ⟨hname, hdormant⟩, hquoted, hliteral hquoted⟩

/-- A comma inside square brackets parts arguments, so a reference to a field with a comma in its
name is torn, and a call inside a literal is replaced. -/
theorem withoutLookups?_tears_reference :
    wrapNames ["Qty, net"] "=Qty, net" = "=@[Qty, net]" ∧
      withoutLookups? "=XLOOKUP(@[Qty, net], Products[Sku], Products[Price])" =
        some "=INDEX(Products[Sku], MATCH(@[Qty, net], 0))" ∧
      withoutLookups? "=\"XLOOKUP(a, b, c)\"" = some "=\"INDEX(c, MATCH(a, b, 0))\"" := by
  refine ⟨by cbv, ?_, ?_⟩
  · have htext : "=XLOOKUP(@[Qty, net], Products[Sku], Products[Price])".toList =
        ['='] ++ ("XLOOKUP(".toList ++ ("@[Qty".toList ++ Args.behind
          [" net]".toList, " Products[Sku]".toList, " Products[Price]".toList] [])) := rfl
    exact withoutLookups?_of_args htext (by decide) (by decide) (by decide)
      (fun z hz => kept_of_notMem (by revert z; decide)) kept_nil
  · have htext : "=\"XLOOKUP(a, b, c)\"".toList =
        ['=', '\x22'] ++ ("XLOOKUP(".toList ++
          ("a".toList ++ Args.behind [" b".toList, " c".toList] ['\x22'])) := rfl
    exact withoutLookups?_of_args htext (by decide) (by decide) (by decide)
      (fun z hz => kept_of_notMem (by revert z; decide)) (kept_of_notMem (by decide))

end WorkbookPlan.Formula
