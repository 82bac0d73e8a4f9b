import WorkbookPlan.Proofs.Formula.FieldReference

/-! Wrapping field names adds wrappers and nothing else. The wrapped text is the formula with some of
the names in it wrapped, so taking out the wrappers gives the formula back, and each wrapper holds a
name. -/
namespace WorkbookPlan.Formula

/-- The text without wrappers: what opens one and what closes one is left out. -/
def unwrap : List Char → List Char
  | [] => []
  | '@' :: '[' :: cs => unwrap cs
  | ']' :: cs => unwrap cs
  | c :: cs => c :: unwrap cs

/-- The second text is the first one with a wrapper around some of the names in it. -/
inductive Wraps (names : List (List Char)) : (source wrapped : List Char) → Prop where
  | nil : Wraps names [] []
  | keep {c source wrapped} : Wraps names source wrapped →
      Wraps names (c :: source) (c :: wrapped)
  | wrap {name source wrapped} : name ∈ names → '[' ∉ name → ']' ∉ name →
      Wraps names source wrapped → Wraps names (name ++ source) (fieldReference name ++ wrapped)

section Wraps

variable {names : List (List Char)} {before : Option Char} {c : Char}
  {cs name source wrapped x : List Char}

theorem Wraps.copy (x : List Char) (h : Wraps names source wrapped) :
    Wraps names (x ++ source) (x ++ wrapped) := by
  induction x with
  | nil => exact h
  | cons c x ih => exact ih.keep

theorem wraps_wrapNamesFrom (names : List (List Char)) (before : Option Char) (cs : List Char) :
    Wraps names cs (wrapNamesFrom names before cs) := by
  induction before, cs using wrapNamesFrom_induction names with
  | nil before =>
    rw [wrapNamesFrom_nil]
    exact .nil
  | name before cs name after h ih =>
    obtain ⟨hname, rfl, hwrap, -⟩ := nameHere?_spec (nameHere?_of_nameAt? h)
    obtain ⟨hopen, hclose⟩ := notMem_of_isWrappable hwrap
    rw [wrapNamesFrom_of_name h]
    exact .wrap hname hopen hclose ih
  | copy before c cs h ih =>
    have hcopy := ih.copy (part (c :: cs)).1
    rwa [part_append, ← wrapNamesFrom_of_none h] at hcopy

/-- A bracket that opens a wrapper stands behind the at sign. -/
theorem Wraps.head?_ne (h : Wraps names source wrapped) (hopen : '[' ∉ source) :
    wrapped.head? ≠ some '[' := by
  cases h with
  | nil => exact (Option.some_ne_none '[').symm
  | keep =>
    intro hc
    exact List.ne_of_not_mem_cons hopen (Option.some.inj hc).symm
  | wrap =>
    intro hc
    exact absurd (Option.some.inj hc) (by decide)

theorem unwrap_cons (hc : c ≠ ']') (hcs : cs.head? ≠ some '[') :
    unwrap (c :: cs) = c :: unwrap cs := by
  refine unwrap.eq_4 c cs (fun rest _ hrest => hcs ?_) hc
  rw [hrest, List.head?_cons]

theorem unwrap_name (hopen : '[' ∉ name) (hclose : ']' ∉ name) (x : List Char) :
    unwrap (name ++ ']' :: x) = name ++ unwrap x := by
  induction name with
  | nil => rfl
  | cons c name ih =>
    have hopen' := List.not_mem_of_not_mem_cons hopen
    have hhead : (name ++ ']' :: x).head? ≠ some '[' := by
      cases name with
      | nil => exact fun h => absurd (Option.some.inj h) (by decide)
      | cons d name => exact fun h => List.ne_of_not_mem_cons hopen' (Option.some.inj h).symm
    rw [List.cons_append, unwrap_cons (List.ne_of_not_mem_cons hclose).symm hhead,
      ih hopen' (List.not_mem_of_not_mem_cons hclose), List.cons_append]

theorem fieldReference_append (name x : List Char) :
    fieldReference name ++ x = '@' :: '[' :: (name ++ ']' :: x) := by
  simp [fieldReference]

/-- Without its wrappers the text is the source. -/
theorem Wraps.unwrap_eq (h : Wraps names source wrapped) (hopen : '[' ∉ source)
    (hclose : ']' ∉ source) : unwrap wrapped = source := by
  induction h with
  | nil => rfl
  | keep h ih =>
    have hopen' := List.not_mem_of_not_mem_cons hopen
    rw [unwrap_cons (List.ne_of_not_mem_cons hclose).symm (h.head?_ne hopen'),
      ih hopen' (List.not_mem_of_not_mem_cons hclose)]
  | @wrap name source wrapped _ hopen' hclose' _ ih =>
    rw [List.mem_append, not_or] at hopen hclose
    rw [fieldReference_append, unwrap, unwrap_name hopen' hclose', ih hopen.2 hclose.2]

/-- No wrapper opens inside a name or with the bracket behind it. -/
theorem exists_of_append_open {y : List Char} (hopen : '[' ∉ name)
    (h : name ++ ']' :: y = x ++ '@' :: '[' :: cs) : ∃ z, y = z ++ '@' :: '[' :: cs := by
  rcases List.append_eq_append_iff.1 h with ⟨z, -, hz⟩ | ⟨z, rfl, hz⟩
  · match z with
    | [] => exact absurd (List.cons.inj hz).1 (by decide)
    | _ :: z => exact ⟨z, (List.cons.inj hz).2⟩
  · match z with
    | [] => exact absurd (List.cons.inj hz).1 (by decide)
    | [_] => exact absurd (List.cons.inj (List.cons.inj hz).2).1 (by decide)
    | _ :: _ :: _ =>
      obtain ⟨rfl, -⟩ := List.cons.inj (List.cons.inj hz).2
      simp at hopen

/-- Each wrapper has one of the names in it. -/
theorem Wraps.exists_name (h : Wraps names source wrapped) (hopen : '[' ∉ source) {inside : List Char}
    (hx : wrapped = x ++ '@' :: '[' :: inside) :
    ∃ name ∈ names, ∃ behind, inside = name ++ ']' :: behind ∧ ']' ∉ name := by
  induction h generalizing x with
  | nil => simp at hx
  | @keep c source wrapped h ih =>
    have hopen' := List.not_mem_of_not_mem_cons hopen
    cases x with
    | nil =>
      obtain ⟨-, rfl⟩ := List.cons.inj hx
      exact absurd rfl (h.head?_ne hopen')
    | cons d x => exact ih hopen' (List.cons.inj hx).2
  | @wrap name source wrapped hname hopen' hclose' h ih =>
    rw [List.mem_append, not_or] at hopen
    rw [fieldReference_append] at hx
    match x with
    | [] =>
      obtain ⟨-, rfl⟩ := List.cons.inj (List.cons.inj hx).2
      exact ⟨name, hname, wrapped, rfl, hclose'⟩
    | [d] =>
      obtain ⟨hbracket, -⟩ := List.cons.inj (List.cons.inj hx).2
      exact absurd hbracket (by decide)
    | d :: e :: x =>
      obtain ⟨-, htail⟩ := List.cons.inj (List.cons.inj hx).2
      rcases exists_of_append_open hopen' htail with ⟨z, rfl⟩
      exact ih hopen.2 rfl

end Wraps

/-- Wrapping only adds wrappers: without them the text is the formula again, and each holds one of
the names. -/
theorem unwrap_wrapNames (names : List String) {formula : String} (hopen : '[' ∉ formula.toList)
    (hclose : ']' ∉ formula.toList) :
    String.ofList (unwrap (wrapNames names formula).toList) = formula ∧
      ∀ before inside, (wrapNames names formula).toList = before ++ '@' :: '[' :: inside →
        ∃ name ∈ names, ∃ behind, inside = name.toList ++ ']' :: behind ∧ ']' ∉ name.toList := by
  have hwraps := wraps_wrapNamesFrom (names.map String.toList) none formula.toList
  have htext : (wrapNames names formula).toList =
      wrapNamesFrom (names.map String.toList) none formula.toList := String.toList_ofList
  rw [htext]
  refine ⟨?_, fun before inside hinside => ?_⟩
  · rw [hwraps.unwrap_eq hopen hclose, String.ofList_toList]
  · obtain ⟨_, hname, hbehind⟩ := hwraps.exists_name hopen hinside
    obtain ⟨name, hmem, rfl⟩ := List.mem_map.1 hname
    exact ⟨name, hmem, hbehind⟩

/-- Names with quotes and at signs, and a quotation that is left open. -/
theorem unwrap_wrapNames_open_quotation :
    let names := ["数量", "it's", "a@", "@b", "A]"]
    let formula := "=数量*it's+a@/@b-A&'Über 数量"
    let wrapped := "=@[数量]*@[it's]+@[a@]/@[@b]-A&'Über 数量"
    '[' ∉ formula.toList ∧ ']' ∉ formula.toList ∧ wrapNames names formula = wrapped ∧
      String.ofList (unwrap wrapped.toList) = formula ∧
      ∃ name ∈ names, ∃ behind, "it's]+@[a@]/@[@b]-A&'Über 数量".toList = name.toList ++ ']' :: behind ∧
        ']' ∉ name.toList := by
  intro names formula wrapped
  have hopen : '[' ∉ formula.toList := by decide
  have hclose : ']' ∉ formula.toList := by decide
  have hwrapped : wrapNames names formula = wrapped := by decide +kernel
  obtain ⟨hsource, hnames⟩ := unwrap_wrapNames names hopen hclose
  rw [hwrapped] at hsource hnames
  exact ⟨hopen, hclose, hwrapped, hsource, hnames "=@[数量]*".toList _ (by decide +kernel)⟩

end WorkbookPlan.Formula
