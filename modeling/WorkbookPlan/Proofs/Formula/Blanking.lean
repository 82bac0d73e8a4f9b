import WorkbookPlan.Proofs.Formula.Literal

/-! What the characters of a formula are to its string literals. Each formula is cut into literals and
the text between them in just one way, closed or not, and blanking turns the bodies of the literals
into spaces and nothing else. -/
namespace WorkbookPlan.Formula

/-- A character stands between literals, at one of the ends of a literal, or in its body. -/
inductive Role where
  | outside
  | delimiter
  | body
  deriving DecidableEq, Repr

/-- What the characters of a formula are. A literal goes up to the first quote that is not doubled, or
to the end of the formula if there is none. -/
inductive Roles : List Char → List Role → Prop where
  | nil : Roles [] []
  | outside {c cs roles} : c ≠ '\x22' → Roles cs roles → Roles (c :: cs) (.outside :: roles)
  | literal {body cs roles} : IsBody body → cs.head? ≠ some '\x22' → Roles cs roles →
      Roles ('\x22' :: (body ++ '\x22' :: cs))
        (.delimiter :: (List.replicate body.length .body ++ .delimiter :: roles))
  | unclosed {body} : IsBody body →
      Roles ('\x22' :: body) (.delimiter :: List.replicate body.length .body)

/-- The bodies of literals become spaces, and all else stays. -/
def blank (role : Role) (c : Char) : Char :=
  if role = .body then ' ' else c

variable {c : Char} {body body' cs rest rest' : List Char} {roles roles' : List Role}

section Cut

/-- A literal that is open is closed by a quote that is not doubled, or never. -/
theorem isBody_or_closes (cs : List Char) : IsBody cs ∨ ∃ body rest,
    IsBody body ∧ rest.head? ≠ some '\x22' ∧ cs = body ++ '\x22' :: rest := by
  -- by the length, since two quotes of a body are passed at once
  induction hlength : cs.length using Nat.strongRecOn generalizing cs with
  | ind length ih =>
    subst hlength
    cases cs with
    | nil => exact .inl .nil
    | cons c cs =>
      by_cases hc : c = '\x22'
      · subst hc
        by_cases hcs : cs.head? = some '\x22'
        · obtain ⟨cs, rfl⟩ := List.head?_eq_some_iff.1 hcs
          rcases ih cs.length (by simp only [List.length_cons]; omega) cs rfl with
            hbody | ⟨body, rest, hbody, hrest, rfl⟩
          · exact .inl (.quotes hbody)
          · exact .inr ⟨'\x22' :: '\x22' :: body, rest, .quotes hbody, hrest, rfl⟩
        · exact .inr ⟨[], cs, .nil, hcs, rfl⟩
      · rcases ih cs.length (Nat.lt_succ_self _) cs rfl with
          hbody | ⟨body, rest, hbody, hrest, rfl⟩
        · exact .inl (.char hc hbody)
        · exact .inr ⟨c :: body, rest, .char hc hbody, hrest, rfl⟩

theorem exists_roles (cs : List Char) : ∃ roles, Roles cs roles := by
  induction hlength : cs.length using Nat.strongRecOn generalizing cs with
  | ind length ih =>
    subst hlength
    cases cs with
    | nil => exact ⟨[], .nil⟩
    | cons c cs =>
      by_cases hc : c = '\x22'
      · subst hc
        rcases isBody_or_closes cs with hbody | ⟨body, rest, hbody, hrest, rfl⟩
        · exact ⟨_, .unclosed hbody⟩
        · have hshorter : rest.length < ('\x22' :: (body ++ '\x22' :: rest)).length := by
            simp only [List.length_cons, List.length_append]
            omega
          obtain ⟨roles, hroles⟩ := ih _ hshorter rest rfl
          exact ⟨_, .literal hbody hrest hroles⟩
      · obtain ⟨roles, hroles⟩ := ih cs.length (Nat.lt_succ_self _) cs rfl
        exact ⟨_, .outside hc hroles⟩

theorem IsBody.of_cons (h : IsBody (c :: cs)) (hc : c ≠ '\x22') : IsBody cs := by
  cases h with
  | char _ h => exact h
  | quotes => exact absurd rfl hc

theorem IsBody.of_quotes (h : IsBody ('\x22' :: '\x22' :: cs)) : IsBody cs := by
  cases h with
  | char hc => exact absurd rfl hc
  | quotes h => exact h

/-- A body does not go on behind its closing quote. -/
theorem IsBody.not_closed (h : IsBody body) (hrest : rest.head? ≠ some '\x22') :
    ¬ IsBody (body ++ '\x22' :: rest) := by
  induction h with
  | nil =>
    intro hall
    cases hall with
    | char hc => exact hc rfl
    | quotes => exact hrest rfl
  | char hc _ ih => exact fun hall => ih (hall.of_cons hc)
  | quotes _ ih => exact fun hall => ih hall.of_quotes

/-- A literal is closed at one place only. -/
theorem IsBody.closes_once (h : IsBody body) (h' : IsBody body') (hrest : rest.head? ≠ some '\x22')
    (hrest' : rest'.head? ≠ some '\x22') (heq : body ++ '\x22' :: rest = body' ++ '\x22' :: rest') :
    body = body' ∧ rest = rest' := by
  induction h generalizing body' with
  | nil =>
    cases h' with
    | nil => exact ⟨rfl, (List.cons.inj heq).2⟩
    | char hc => exact absurd (List.cons.inj heq).1.symm hc
    | quotes =>
      rw [(List.cons.inj heq).2] at hrest
      exact absurd rfl hrest
  | char hc _ ih =>
    cases h' with
    | nil => exact absurd (List.cons.inj heq).1 hc
    | char _ h' =>
      obtain ⟨rfl, rfl⟩ := ih h' (List.cons.inj heq).2
      exact ⟨congrArg (· :: _) (List.cons.inj heq).1, rfl⟩
    | quotes => exact absurd (List.cons.inj heq).1 hc
  | quotes _ ih =>
    cases h' with
    | nil =>
      rw [← (List.cons.inj heq).2] at hrest'
      exact absurd rfl hrest'
    | char hc => exact absurd (List.cons.inj heq).1.symm hc
    | quotes h' =>
      obtain ⟨rfl, rfl⟩ := ih h' (List.cons.inj (List.cons.inj heq).2).2
      exact ⟨rfl, rfl⟩

theorem Roles.unique (h : Roles cs roles) (h' : Roles cs roles') : roles = roles' := by
  induction h generalizing roles' with
  | nil =>
    cases h'
    rfl
  | outside hc _ ih =>
    cases h' with
    | outside _ h' => rw [ih h']
    | literal => exact absurd rfl hc
    | unclosed => exact absurd rfl hc
  | @literal body cs roles hbody hcs _ ih =>
    generalize hwhole : '\x22' :: (body ++ '\x22' :: cs) = whole at h'
    cases h' with
    | nil => cases hwhole
    | outside hc => exact absurd (List.cons.inj hwhole).1.symm hc
    | literal hbody' hcs' h' =>
      obtain ⟨rfl, rfl⟩ := hbody.closes_once hbody' hcs hcs' (List.cons.inj hwhole).2
      rw [ih h']
    | unclosed hall =>
      rw [← (List.cons.inj hwhole).2] at hall
      exact absurd hall (hbody.not_closed hcs)
  | @unclosed body hbody =>
    generalize hwhole : '\x22' :: body = whole at h'
    cases h' with
    | nil => cases hwhole
    | outside hc => exact absurd (List.cons.inj hwhole).1.symm hc
    | literal hbody' hcs' =>
      rw [(List.cons.inj hwhole).2] at hbody
      exact absurd hbody (hbody'.not_closed hcs')
    | unclosed =>
      rw [(List.cons.inj hwhole).2]

end Cut

section Blank

theorem Roles.length_eq (h : Roles cs roles) : roles.length = cs.length := by
  induction h with
  | nil => rfl
  | outside _ _ ih => simp [ih]
  | literal _ _ _ ih => simp [ih]
  | unclosed => simp

theorem zipWith_blank_body (body : List Char) :
    List.zipWith blank (List.replicate body.length .body) body = List.replicate body.length ' ' := by
  induction body with
  | nil => rfl
  | cons c body ih => exact congrArg (' ' :: ·) ih

theorem zipWith_blank_literal (body cs : List Char) (roles : List Role) :
    List.zipWith blank (.delimiter :: (List.replicate body.length .body ++ .delimiter :: roles))
        ('\x22' :: (body ++ '\x22' :: cs)) =
      '\x22' :: (List.replicate body.length ' ' ++ '\x22' :: List.zipWith blank roles cs) := by
  rw [List.zipWith_cons_cons, List.zipWith_append (by simp), zipWith_blank_body,
    List.zipWith_cons_cons]
  rfl

theorem zipWith_blank_unclosed (body : List Char) :
    List.zipWith blank (.delimiter :: List.replicate body.length .body) ('\x22' :: body) =
      '\x22' :: List.replicate body.length ' ' := by
  rw [List.zipWith_cons_cons, zipWith_blank_body]
  rfl

theorem blankLiteralsFrom_closing (h : rest.head? ≠ some '\x22') :
    blankLiteralsFrom true ('\x22' :: rest) = '\x22' :: blankLiteralsFrom false rest := by
  cases rest with
  | nil => rfl
  | cons c rest =>
    have hc : c ≠ '\x22' := fun hc => h (congrArg some hc)
    rw [blankLiteralsFrom_close hc, blankLiteralsFrom_outside hc]

/-- Blanking goes by the roles of the characters. -/
theorem Roles.blankLiterals_eq (h : Roles cs roles) :
    blankLiterals cs = List.zipWith blank roles cs := by
  unfold blankLiterals
  induction h with
  | nil => rfl
  | outside hc _ ih =>
    rw [blankLiteralsFrom_outside hc, ih]
    rfl
  | literal hbody hcs _ ih =>
    rw [zipWith_blank_literal, ← ih, ← blankLiteralsFrom_closing hcs,
      ← hbody.blankLiteralsFrom_append]
    rfl
  | @unclosed body hbody =>
    have hinside := hbody.blankLiteralsFrom_append []
    rw [List.append_nil, blankLiteralsFrom, List.append_nil] at hinside
    rw [zipWith_blank_unclosed, ← hinside]
    rfl

theorem isBody_replicate (n : Nat) : IsBody (List.replicate n ' ') :=
  isBody_of_notMem fun h => absurd (List.eq_of_mem_replicate h) (by decide)

theorem head?_zipWith_blank (h : cs.head? ≠ some '\x22') (roles : List Role) :
    (List.zipWith blank roles cs).head? ≠ some '\x22' := by
  cases roles with
  | nil => simp
  | cons role roles =>
    cases cs with
    | nil => simp
    | cons c cs =>
      rw [List.zipWith_cons_cons, List.head?_cons, blank]
      split
      · decide
      · exact h

/-- Blanking changes what no character is. -/
theorem Roles.zipWith_blank (h : Roles cs roles) : Roles (List.zipWith blank roles cs) roles := by
  induction h with
  | nil => exact .nil
  | outside hc _ ih => exact .outside hc ih
  | @literal body cs roles _ hcs _ ih =>
    have hblank := Roles.literal (isBody_replicate body.length) (head?_zipWith_blank hcs roles) ih
    rwa [List.length_replicate, ← zipWith_blank_literal] at hblank
  | @unclosed body _ =>
    have hblank := Roles.unclosed (isBody_replicate body.length)
    rwa [List.length_replicate, ← zipWith_blank_unclosed] at hblank

theorem zipWith_blank_zipWith_blank (roles : List Role) (cs : List Char) :
    List.zipWith blank roles (List.zipWith blank roles cs) = List.zipWith blank roles cs := by
  have hblank : ∀ role c, blank role (blank role c) = blank role c := by
    intro role c
    cases role <;> rfl
  induction roles generalizing cs with
  | nil => rfl
  | cons role roles ih =>
    cases cs with
    | nil => rfl
    | cons c cs => rw [List.zipWith_cons_cons, List.zipWith_cons_cons, hblank, ih]

/-- The roles of the characters are unique. Blanking turns those in a body into spaces and keeps the
roles. -/
theorem blankLiterals_exact (cs : List Char) :
    ∃ roles, (∀ roles', Roles cs roles' ↔ roles' = roles) ∧
      blankLiterals cs = List.zipWith blank roles cs ∧ (blankLiterals cs).length = cs.length ∧
      Roles (blankLiterals cs) roles ∧ blankLiterals (blankLiterals cs) = blankLiterals cs := by
  obtain ⟨roles, hroles⟩ := exists_roles cs
  have hblank := hroles.blankLiterals_eq
  have hagain : Roles (blankLiterals cs) roles := hblank ▸ hroles.zipWith_blank
  refine ⟨roles, fun roles' => ⟨fun h => h.unique hroles, fun h => h ▸ hroles⟩, hblank, ?_, hagain, ?_⟩
  · rw [← hagain.length_eq, hroles.length_eq]
  · rw [hagain.blankLiterals_eq, hblank, zipWith_blank_zipWith_blank]

/-- A quote behind two others closes the literal, and the last literal stays open. -/
example :
    blankLiterals "=\x22a\x22\x22b\x22\x22\x22&A1&\x22c\x22\x22".toList =
      "=\x22      \x22&A1&\x22   ".toList := by
  decide +kernel

end Blank

end WorkbookPlan.Formula
