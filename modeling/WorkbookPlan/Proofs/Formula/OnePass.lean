import WorkbookPlan.Proofs.Formula.Lookup

/-! One pass leaves no call to be replaced. Without literals and braces the walk through a text
keeps the level of every place and the number of arguments of every call, so a call that stays in
the result was one that had to stay. -/
namespace WorkbookPlan.Formula

def Bare (cs : List Char) : Prop :=
  ∀ c ∈ cs, c ∉ ['\x22', '\x7b', '\x7d']

instance (cs : List Char) : Decidable (Bare cs) :=
  List.decidableBAll _ cs

/-- From any depth the text leads back to it. -/
def Level (cs : List Char) : Prop :=
  ∀ depth, walk (depth, false) cs = some (depth, false)

section Level

variable {d e k : Nat} {q : Bool} {c : Char} {x y z cs written rest : List Char}
  {later : List (List Char)}

theorem bare_append : Bare (x ++ y) ↔ Bare x ∧ Bare y :=
  List.forall_mem_append

theorem bare_cons : Bare (c :: cs) ↔ c ∉ ['\x22', '\x7b', '\x7d'] ∧ Bare cs :=
  List.forall_mem_cons

theorem advance?_add (hc : c ∉ ['\x22', '\x7b', '\x7d'])
    (h : advance? (d, false) c = some (e, q)) (k : Nat) :
    q = false ∧ advance? (d + k, false) c = some (e + k, false) := by
  unfold advance? at h ⊢
  grind

theorem walk_add (hcs : Bare cs) (h : walk (d, false) cs = some (e, q)) (k : Nat) :
    q = false ∧ walk (d + k, false) cs = some (e + k, false) := by
  induction cs generalizing d with
  | nil =>
    cases h
    exact ⟨rfl, rfl⟩
  | cons c cs ih =>
    obtain ⟨hc, hrest⟩ := bare_cons.1 hcs
    rw [walk_cons] at h
    obtain ⟨⟨d', q'⟩, hd, hwalk⟩ := Option.bind_eq_some_iff.1 h
    obtain ⟨rfl, hadd⟩ := advance?_add hc hd k
    rw [walk_cons, hadd, Option.bind_some]
    exact ih hrest hwalk

theorem level_of_isArg (hx : Bare x) (h : IsArg x) : Level x := by
  intro depth
  have hadd := (walk_add hx h depth).2
  rwa [Nat.zero_add] at hadd

theorem Level.isArg (h : Level x) : IsArg x := h 0

theorem plain_of_blank (h : ∀ c ∈ x, Text.isBlank c = true) : Plain x := by
  intro c hc hmem
  have hnone : (structural.any Text.isBlank) = false := by decide
  have hblank := List.any_eq_false.1 hnone c hmem
  exact hblank (h c hc)

/-- A text is no argument merely because of the blanks at its ends. -/
theorem IsArg.trim (h : IsArg x) : IsArg (Text.trim x) := by
  obtain ⟨a, b, hx, ha, hb⟩ := Text.exists_trim x
  have hwalk : walk (0, false) x = some (0, false) := h
  rw [hx, List.append_assoc, walk_append_of_eq ((plain_of_blank ha).walk_eq _),
    walk_append] at hwalk
  obtain ⟨s, hs, hend⟩ := Option.bind_eq_some_iff.1 hwalk
  rw [(plain_of_blank hb).walk_eq s] at hend
  cases hend
  exact hs

theorem walk_lookupName (h : IsLookupName written) (depth : Nat) :
    walk (depth, false) written = some (depth + 1, false) := by
  have hsplit : written.map Char.toUpper = "XLOOKUP".toList ++ ['('] := h
  obtain ⟨name, tail, rfl, hname, htail⟩ := List.map_eq_append_iff.1 hsplit
  obtain ⟨paren, rfl, hparen⟩ := List.map_eq_singleton_iff.1 htail
  obtain rfl := Text.eq_of_toUpper hparen (by decide)
  have hplain : Plain name := by
    intro c hc hmem
    have hupper : c.toUpper ∈ "XLOOKUP".toList := hname ▸ List.mem_map_of_mem hc
    have hnone : structural.any (fun c => c.toUpper ∈ "XLOOKUP".toList) = false := by decide
    have hother := List.any_eq_false.1 hnone c hmem
    exact hother (decide_eq_true hupper)
  rw [walk_append_of_eq (hplain.walk_eq _)]
  rfl

/-- Behind the first argument the rest of a call leads one level up. -/
theorem walk_behind (h : ∀ x ∈ later, Level x) (depth : Nat) :
    walk (depth + 1, false) (Args.behind later rest) = walk (depth, false) rest := by
  induction later with
  | nil =>
    have hclose : advance? (depth + 1, false) ')' = some (depth, false) := by simp [advance?]
    rw [Args.behind, walk_cons, hclose, Option.bind_some]
  | cons x later ih =>
    obtain ⟨hx, hlater⟩ := List.forall_mem_cons.1 h
    have hcomma : advance? (depth + 1, false) ',' = some (depth + 1, false) := by simp [advance?]
    rw [Args.behind, walk_cons, hcomma, Option.bind_some, walk_append_of_eq (hx _), ih hlater]

theorem bare_behind {later : List (List Char)} :
    Bare (Args.behind later rest) ↔ (∀ x ∈ later, Bare x) ∧ Bare rest := by
  induction later with
  | nil => simp [Args.behind, bare_cons]
  | cons x later ih => simp [Args.behind, bare_cons, bare_append, ih, and_assoc]

end Level

section Call

variable {before : Option Char} {depth : Nat} {cs key within result after : List Char}

theorem Bare.trim {x : List Char} (h : Bare x) : Bare (Text.trim x) :=
  fun c hc => h c (Text.trim_subset x hc)

/-- A call without literals and braces is level, and so are its arguments. -/
theorem exists_call (hcs : Bare cs)
    (h : lookupCall? before cs = some (key, within, result, after)) :
    ∃ call, cs = call ++ after ∧ Level call ∧ Bare after ∧
      (Bare key ∧ Level key) ∧ (Bare within ∧ Level within) ∧ Bare result ∧ Level result := by
  obtain ⟨-, written, inner, k, w, r, more, hwritten, rfl, hsplit, rfl, rfl, rfl⟩ :=
    lookupCall?_eq_some_iff.1 h
  obtain ⟨hk, hlater, hinner⟩ := splitArgs_eq_some_iff.1 hsplit
  simp only at hk hlater hinner
  subst hinner
  obtain ⟨-, hbare⟩ := bare_append.1 hcs
  obtain ⟨hbarek, hbare⟩ := bare_append.1 hbare
  obtain ⟨hbarelater, hafter⟩ := bare_behind.1 hbare
  have hlevel : ∀ x ∈ w :: r :: more, Level x := fun x hx =>
    level_of_isArg (hbarelater x hx) (hlater x hx)
  have htrim : ∀ x, Bare x → IsArg x → Bare (Text.trim x) ∧ Level (Text.trim x) := fun x hb hx =>
    ⟨hb.trim, level_of_isArg hb.trim hx.trim⟩
  refine ⟨written ++ (k ++ Args.behind (w :: r :: more) []), ?_, fun depth => ?_, hafter, ?_⟩
  · rw [List.append_assoc, List.append_assoc, Args.behind_append, List.nil_append]
  · rw [walk_append_of_eq (walk_lookupName hwritten depth),
      walk_append_of_eq (level_of_isArg hbarek hk _), walk_behind hlevel, walk_nil]
  · simp only [List.forall_mem_cons] at hbarelater hlater ⊢
    exact ⟨htrim k hbarek hk, htrim w hbarelater.1 hlater.1, htrim r hbarelater.2.1 hlater.2.1⟩

theorem Level.replacement (hkey : Level key) (hwithin : Level within) (hresult : Level result) :
    Level (replacement key within result) := by
  intro depth
  have hindex : walk (depth, false) "INDEX(".toList = some (depth + 1, false) := rfl
  have hmatch : walk (depth + 1, false) ", MATCH(".toList = some (depth + 2, false) := rfl
  have hcomma : walk (depth + 2, false) ", ".toList = some (depth + 2, false) := rfl
  have hclose : walk (depth + 2, false) ", 0))".toList = some (depth, false) := rfl
  unfold Formula.replacement
  simp only [List.append_assoc]
  rw [walk_append_of_eq hindex, walk_append_of_eq (hresult _), walk_append_of_eq hmatch,
    walk_append_of_eq (hkey _), walk_append_of_eq hcomma, walk_append_of_eq (hwithin _), hclose]

end Call

section Replaced

variable {before : Option Char} {depth : Nat} {cs : List Char}

theorem bare_replacement {key within result : List Char} :
    Bare (replacement key within result) ↔ Bare key ∧ Bare within ∧ Bare result := by
  have hindex : Bare "INDEX(".toList := by decide
  have hmatch : Bare ", MATCH(".toList := by decide
  have hcomma : Bare ", ".toList := by decide
  have hclose : Bare ", 0))".toList := by decide
  unfold replacement
  simp only [bare_append, hindex, hmatch, hcomma, hclose, and_true, true_and]
  constructor
  · rintro ⟨⟨hresult, hkey⟩, hwithin⟩
    exact ⟨hkey, hwithin, hresult⟩
  · rintro ⟨hkey, hwithin, hresult⟩
    exact ⟨⟨hresult, hkey⟩, hwithin⟩

theorem Bare.replaceLookups (h : Bare cs) : Bare (replaceLookups before cs).1 := by
  induction before, cs using lookups_induction with
  | nil before =>
    rw [replaceLookups_nil]
    exact h
  | call before cs key within result after hcall ihkey ihwithin ihresult ihafter =>
    obtain ⟨call, rfl, -, hafter, ⟨hkey, -⟩, ⟨hwithin, -⟩, hresult, -⟩ := exists_call h hcall
    rw [replaceLookups_of_call hcall, bare_append, bare_replacement]
    exact ⟨⟨ihkey hkey, ihwithin hwithin, ihresult hresult⟩, ihafter hafter⟩
  | skip before c cs hnone ih =>
    obtain ⟨hc, hcs⟩ := bare_cons.1 h
    rw [replaceLookups_of_none hnone, bare_cons]
    exact ⟨hc, ih hcs⟩

/-- Replacing keeps the level behind the text. -/
theorem walk_replaceLookups (h : Bare cs) (depth : Nat) :
    walk (depth, false) (replaceLookups before cs).1 = walk (depth, false) cs := by
  induction before, cs using lookups_induction generalizing depth with
  | nil before => rw [replaceLookups_nil]
  | call before cs key within result after hcall ihkey ihwithin ihresult ihafter =>
    obtain ⟨call, rfl, hlevel, hafter, ⟨hkey, hlkey⟩, ⟨hwithin, hlwithin⟩, hresult, hlresult⟩ :=
      exists_call h hcall
    have hreplaced := Level.replacement (fun d => (ihkey hkey d).trans (hlkey d))
      (fun d => (ihwithin hwithin d).trans (hlwithin d))
      (fun d => (ihresult hresult d).trans (hlresult d))
    rw [replaceLookups_of_call hcall, walk_append_of_eq (hreplaced depth), ihafter hafter,
      walk_append_of_eq (hlevel depth)]
  | skip before c cs hnone ih =>
    obtain ⟨hc, hcs⟩ := bare_cons.1 h
    rw [replaceLookups_of_none hnone, walk_cons, walk_cons]
    cases hd : advance? (depth, false) c with
    | none => rfl
    | some s =>
      obtain ⟨d, q⟩ := s
      obtain ⟨rfl, -⟩ := advance?_add hc hd 0
      exact ih hcs d

theorem Level.replaceLookups (h : Level cs) (hcs : Bare cs) (before : Option Char) :
    Level (replaceLookups before cs).1 :=
  fun depth => (walk_replaceLookups hcs depth).trans (h depth)

/-- The number of arguments behind the first, if the call is closed. -/
def laterArgs (depth : Nat) (cs : List Char) : Option Nat :=
  (splitArgs depth false cs).map (·.later.length)

theorem laterArgs_append {d : Nat} {x : List Char} (h : walk (depth, false) x = some (d, false))
    (cs : List Char) : laterArgs depth (x ++ cs) = laterArgs d cs := by
  unfold laterArgs
  rw [splitArgs_append h, Option.map_map]
  rfl

/-- Replacing keeps the number of arguments of a call around the text. -/
theorem laterArgs_replaceLookups (h : Bare cs) (depth : Nat) :
    laterArgs depth (replaceLookups before cs).1 = laterArgs depth cs := by
  induction before, cs using lookups_induction generalizing depth with
  | nil before => rw [replaceLookups_nil]
  | call before cs key within result after hcall _ _ _ ihafter =>
    obtain ⟨call, rfl, hlevel, hafter, ⟨hkey, hlkey⟩, ⟨hwithin, hlwithin⟩, hresult, hlresult⟩ :=
      exists_call h hcall
    have hreplaced := Level.replacement (hlkey.replaceLookups hkey none)
      (hlwithin.replaceLookups hwithin none) (hlresult.replaceLookups hresult none)
    rw [replaceLookups_of_call hcall, laterArgs_append (hreplaced depth), ihafter hafter,
      laterArgs_append (hlevel depth)]
  | skip before c cs hnone ih =>
    obtain ⟨hc, hcs⟩ := bare_cons.1 h
    rw [replaceLookups_of_none hnone]
    cases hd : advance? (depth, false) c with
    | some s =>
      obtain ⟨d, q⟩ := s
      obtain ⟨rfl, -⟩ := advance?_add hc hd 0
      have hwalk : walk (depth, false) [c] = some (d, false) := by rw [walk_cons, hd]; rfl
      rw [← List.singleton_append, laterArgs_append hwalk, ih hcs, ← laterArgs_append hwalk,
        List.singleton_append]
    | none =>
      obtain ⟨hs, rfl | rfl⟩ := advance?_eq_none_iff.1 hd
      · cases hs
        rfl
      · cases hs
        have hcomma : ∀ x, laterArgs 0 (',' :: x) = (laterArgs 0 x).map (· + 1) := fun x => by
          unfold laterArgs
          rw [splitArgs_comma, Option.map_map, Option.map_map]
          rfl
        rw [hcomma, hcomma, ih hcs]

/-- A text that leads from inside a call to the outermost level closes the call on its way. -/
theorem exists_splitArgs {e : Nat} (hcs : Bare cs)
    (h : walk (depth + e + 1, false) cs = some (0, false)) :
    ∃ a, splitArgs depth false cs = some a := by
  induction cs generalizing depth e with
  | nil => simp at h
  | cons c cs ih =>
    obtain ⟨hc, hrest⟩ := bare_cons.1 hcs
    cases hd : advance? (depth, false) c with
    | some s =>
      obtain ⟨d, q⟩ := s
      obtain ⟨rfl, hadd⟩ := advance?_add hc hd (e + 1)
      rw [walk_cons, Nat.add_assoc, hadd, Option.bind_some, ← Nat.add_assoc] at h
      obtain ⟨a, ha⟩ := ih hrest h
      exact ⟨a.push c, by rw [splitArgs_of_advance hd, ha, Option.map_some]⟩
    | none =>
      obtain ⟨hs, rfl | rfl⟩ := advance?_eq_none_iff.1 hd
      · cases hs
        exact ⟨_, rfl⟩
      · cases hs
        have hcomma : advance? (0 + e + 1, false) ',' = some (0 + e + 1, false) := by
          simp [advance?]
        rw [walk_cons, hcomma, Option.bind_some] at h
        obtain ⟨a, ha⟩ := ih hrest h
        exact ⟨a.shift, by rw [splitArgs_comma, ha, Option.map_some]⟩

end Replaced

section Kept

variable {before : Option Char} {c : Char} {cs x y written inner : List Char}

/-- In an argument every call is closed. -/
theorem exists_splitArgs_of_isArg {pre : List Char} (hbare : Bare (pre ++ (written ++ inner)))
    (harg : IsArg (pre ++ (written ++ inner))) (hwritten : IsLookupName written) :
    ∃ a, splitArgs 0 false inner = some a := by
  obtain ⟨hpre, hcall⟩ := bare_append.1 hbare
  obtain ⟨-, hinner⟩ := bare_append.1 hcall
  have hwalk : walk (0, false) (pre ++ (written ++ inner)) = some (0, false) := harg
  rw [walk_append] at hwalk
  obtain ⟨⟨e, q⟩, hfront, hbehind⟩ := Option.bind_eq_some_iff.1 hwalk
  obtain ⟨rfl, -⟩ := walk_add hpre hfront 0
  rw [walk_append_of_eq (walk_lookupName hwritten e)] at hbehind
  exact exists_splitArgs (e := e) hinner (by rwa [Nat.zero_add])

/-- Where two texts agree, the separator stands behind the part that does not hold it. -/
theorem exists_of_append_cons {sep : Char} (h : x ++ sep :: y = written ++ inner)
    (hsep : sep ∉ written) : ∃ z, x = written ++ z ∧ inner = z ++ sep :: y := by
  rcases List.append_eq_append_iff.1 h with ⟨z, hw, hi⟩ | ⟨z, hx, hi⟩
  · cases z with
    | nil => exact ⟨[], by simpa using hw.symm, by simpa using hi.symm⟩
    | cons d z =>
      obtain ⟨rfl, -⟩ := List.cons.inj hi
      exact absurd (hw ▸ List.mem_append_right _ List.mem_cons_self) hsep
  · exact ⟨z, hx, hi⟩

/-- A call cannot begin in an argument and reach over the comma behind it. -/
theorem Kept.comma (hcs : Bare x) (harg : IsArg x) (h : Kept before x []) :
    Kept before x (',' :: y) := by
  intro pre c post hx
  have hstays := h pre c post hx
  rw [List.append_nil] at hstays
  rw [lookupCall?_eq_none_iff] at hstays ⊢
  intro hbefore written inner a hwritten hpost hsplit
  obtain ⟨z, hz, rfl⟩ : ∃ z, c :: post = written ++ z ∧ inner = z ++ ',' :: y :=
    exists_of_append_cons hpost (notMem_of_isLookupName hwritten (by decide))
  rw [hx, hz] at hcs harg
  obtain ⟨b, hb⟩ := exists_splitArgs_of_isArg hcs harg hwritten
  rw [splitArgs_append_right hb] at hsplit
  cases hsplit
  exact hstays hbefore written z b hwritten hz hb

/-- A replaced text starts with the letters of the source up to the first replacement. -/
theorem exists_of_replaceLookups (h : (replaceLookups before cs).1 = x ++ y) (hx : 'I' ∉ x) :
    ∃ rest before', cs = x ++ rest ∧ y = (replaceLookups before' rest).1 := by
  induction x generalizing before cs with
  | nil => exact ⟨cs, before, rfl, h.symm⟩
  | cons c x ih =>
    have hc : 'I' ≠ c := List.ne_of_not_mem_cons hx
    have htl : 'I' ∉ x := List.not_mem_of_not_mem_cons hx
    cases cs with
    | nil => simp [replaceLookups_nil] at h
    | cons d cs =>
      cases hcall : lookupCall? before (d :: cs) with
      | some call =>
        obtain ⟨key, within, result, after⟩ := call
        rw [replaceLookups_of_call hcall] at h
        exact absurd (List.cons.inj h).1 hc
      | none =>
        rw [replaceLookups_of_none hcall] at h
        obtain ⟨rfl, htail⟩ := List.cons.inj h
        obtain ⟨rest, before', rfl, rfl⟩ := ih htail htl
        exact ⟨rest, before', rfl, rfl⟩

/-- Behind a place that stays no call is completed by what is replaced further on. -/
theorem lookupCall?_replaceLookups (hcs : Bare cs) (h : lookupCall? before (c :: cs) = none)
    (b : Option Char) : lookupCall? before (c :: (replaceLookups b cs).1) = none := by
  rw [lookupCall?_eq_none_iff] at h ⊢
  intro hbefore written inner a hwritten hpost hsplit
  obtain ⟨w, ws, rfl⟩ := List.exists_cons_of_ne_nil (ne_nil_of_isLookupName hwritten)
  obtain ⟨rfl, htail⟩ := List.cons.inj hpost
  have hletter : 'I' ∉ ws := fun hmem =>
    notMem_of_isLookupName hwritten (by decide) (List.mem_cons_of_mem c hmem)
  obtain ⟨rest, before', rfl, rfl⟩ := exists_of_replaceLookups htail hletter
  have hsame : laterArgs 0 (replaceLookups before' rest).1 = laterArgs 0 rest :=
    laterArgs_replaceLookups (bare_append.1 hcs).2 0
  rw [laterArgs, hsplit] at hsame
  obtain ⟨b, hb, hlength⟩ := Option.map_eq_some_iff.1 hsame.symm
  have hfew := h hbefore (c :: ws) rest b hwritten rfl hb
  rwa [hlength] at hfew

/-- No call begins in a replacement, whatever stands behind it. -/
theorem kept_replacement {key within result : List Char}
    (hkey : Bare key ∧ IsArg key ∧ Kept none key [])
    (hwithin : Bare within ∧ IsArg within ∧ Kept none within [])
    (hresult : Bare result ∧ IsArg result ∧ Kept none result []) :
    Kept before (replacement key within result) y := by
  have hpiece : ∀ b x z, Bare x ∧ IsArg x ∧ Kept none x [] → b.any Text.isNameChar = false →
      Kept b x (',' :: z) := by
    intro b x z ⟨hx, harg, hkept⟩ hb
    have hfront : Kept b x [] := (kept_congr (by rw [hb]; rfl)).1 hkept
    exact hfront.comma hx harg
  have hindex : "INDEX(".toList = "INDE".toList ++ ('X' :: ['(']) := rfl
  have hmatch : ", MATCH(".toList = ',' :: " MATCH(".toList := rfl
  have hcomma : ", ".toList = ',' :: [' '] := rfl
  have hclose : ", 0))".toList = ',' :: " 0))".toList := rfl
  -- The only letter that could begin a call stands inside the word before the parenthesis.
  have hword : ∀ z, Kept before "INDEX(".toList z := by
    intro z
    rw [hindex, kept_append, kept_cons]
    refine ⟨kept_of_notMem (by decide), ?_, kept_of_notMem (by decide)⟩
    rw [lookupCall?_eq_none_iff]
    intro hbefore
    exact absurd hbefore (by simp; decide)
  unfold replacement
  simp only [List.append_assoc, kept_append]
  refine ⟨hword _, ?_, kept_of_notMem (by decide), ?_, kept_of_notMem (by decide), ?_,
    kept_of_notMem (by decide)⟩
  · rw [hmatch]
    exact hpiece _ _ _ hresult rfl
  · rw [hcomma]
    exact hpiece _ _ _ hkey rfl
  · rw [hclose]
    exact hpiece _ _ _ hwithin rfl

/-- The calls that stay are those that had to. -/
theorem kept_replaceLookups (hcs : Bare cs) : Kept before (replaceLookups before cs).1 [] := by
  induction before, cs using lookups_induction with
  | nil before =>
    rw [replaceLookups_nil]
    exact kept_nil
  | call before cs key within result after hcall ihkey ihwithin ihresult ihafter =>
    obtain ⟨call, rfl, hlevel, hafter, ⟨hkey, hlkey⟩, ⟨hwithin, hlwithin⟩, hresult, hlresult⟩ :=
      exists_call hcs hcall
    rw [replaceLookups_of_call hcall, kept_append]
    constructor
    · exact kept_replacement
        ⟨hkey.replaceLookups, (hlkey.replaceLookups hkey none).isArg, ihkey hkey⟩
        ⟨hwithin.replaceLookups, (hlwithin.replaceLookups hwithin none).isArg, ihwithin hwithin⟩
        ⟨hresult.replaceLookups, (hlresult.replaceLookups hresult none).isArg, ihresult hresult⟩
    · unfold replacement
      rw [List.getLast?_append]
      exact ihafter hafter
  | skip before c cs hnone ih =>
    obtain ⟨-, hrest⟩ := bare_cons.1 hcs
    rw [replaceLookups_of_none hnone, kept_cons, List.append_nil]
    exact ⟨lookupCall?_replaceLookups hrest hnone _, ih hrest⟩

end Kept

/-- The rewritten formula has nothing left to rewrite: a call in it has at most two arguments,
unless its name is the tail of a longer word. -/
theorem withoutLookups?_once {f g : String} (hf : Bare f.toList) (h : withoutLookups? f = some g) :
    withoutLookups? g = none ∧
      ∀ pre written key later rest,
        g.toList = pre ++ (written ++ (key ++ Args.behind later rest)) → IsLookupName written →
          IsArg key → (∀ x ∈ later, IsArg x) →
            pre.getLast?.any Text.isNameChar = true ∨ (key :: later).length ≤ 2 := by
  have hkept : Kept none g.toList [] := by
    have hg : Kept none (replaceLookups none f.toList).1 [] := kept_replaceLookups hf
    rwa [withoutLookups?_eq_some_iff.1 h] at hg
  refine ⟨withoutLookups?_eq_none_iff.2 hkept, ?_⟩
  intro pre written key later rest htext hwritten hkey hlater
  by_cases hbefore : pre.getLast?.any Text.isNameChar = true
  · exact .inl hbefore
  have hsplit : splitArgs 0 false (key ++ Args.behind later rest) = some ⟨key, later, rest⟩ :=
    splitArgs_eq_some_iff.2 ⟨hkey, hlater, rfl⟩
  obtain ⟨w, ws, rfl⟩ := List.exists_cons_of_ne_nil (ne_nil_of_isLookupName hwritten)
  have hnone := hkept pre w (ws ++ (key ++ Args.behind later rest)) htext
  rw [List.append_nil, Option.or_none, lookupCall?_eq_none_iff] at hnone
  have hlength : later.length < 2 :=
    hnone (Bool.eq_false_iff.2 hbefore) (w :: ws) _ _ hwritten rfl hsplit
  right
  simp only [List.length_cons]
  omega

theorem withoutLookups?_once_nested :
    Bare "=xlookup(XLOOKUP(a,B,C),D,XLOOKUP(e,F))".toList ∧
      withoutLookups? "=xlookup(XLOOKUP(a,B,C),D,XLOOKUP(e,F))" =
        some "=INDEX(XLOOKUP(e,F), MATCH(INDEX(C, MATCH(a, B, 0)), D, 0))" ∧
      withoutLookups? "=INDEX(XLOOKUP(e,F), MATCH(INDEX(C, MATCH(a, B, 0)), D, 0))" = none := by
  have hbare : Bare "=xlookup(XLOOKUP(a,B,C),D,XLOOKUP(e,F))".toList := by decide
  have houter : lookupCall? (some '=') "xlookup(XLOOKUP(a,B,C),D,XLOOKUP(e,F))".toList =
      some ("XLOOKUP(a,B,C)".toList, "D".toList, "XLOOKUP(e,F)".toList, []) := by decide
  have hkey : lookupCall? none "XLOOKUP(a,B,C)".toList =
      some ("a".toList, "B".toList, "C".toList, []) := by decide
  have hresult : lookupCall? none ('X' :: "LOOKUP(e,F)".toList) = none := by decide
  have hrewritten : withoutLookups? "=xlookup(XLOOKUP(a,B,C),D,XLOOKUP(e,F))" =
      some "=INDEX(XLOOKUP(e,F), MATCH(INDEX(C, MATCH(a, B, 0)), D, 0))" := by
    have htext : "=xlookup(XLOOKUP(a,B,C),D,XLOOKUP(e,F))".toList =
        '=' :: "xlookup(XLOOKUP(a,B,C),D,XLOOKUP(e,F))".toList := rfl
    have hkept : Kept none "XLOOKUP(e,F)".toList [] :=
      kept_cons.2 ⟨hresult, kept_of_notMem (by decide)⟩
    have hplain : ∀ x : List Char, 'X' ∉ Text.asciiUpper x →
        replaceLookups none x = (x, false) := fun x hx => replaceLookups_of_kept (kept_of_notMem hx)
    rw [withoutLookups?_eq_some_iff, htext, replaceLookups_of_none (lookupCall?_head (by decide)),
      replaceLookups_of_call houter, replaceLookups_of_call hkey, replaceLookups_of_kept hkept,
      hplain "a".toList (by decide), hplain "B".toList (by decide), hplain "C".toList (by decide),
      hplain "D".toList (by decide), replaceLookups_nil]
    rfl
  exact ⟨hbare, hrewritten, (withoutLookups?_once hbare hrewritten).1⟩

end WorkbookPlan.Formula
