import WorkbookPlan.Proofs.Text.Digits
import WorkbookPlan.Settings.Environment

/-! What variables of the environment make of settings. A variable that is set has to spell a number that
fits its setting, and the first one that does not is the error; otherwise each setting is what its variable
says, or as before. -/
namespace WorkbookPlan.Settings

/-- The text spells the number with ASCII digits, one at least, behind a plus sign or without one. -/
def Spells (cs : List Char) (n : Nat) : Prop :=
  ∃ digits, (cs = digits ∨ cs = '+' :: digits) ∧ digits ≠ [] ∧
    (∀ c ∈ digits, c.isDigit = true) ∧
      n = Text.placeValue 10 Text.digit digits

/-- The value, without the blanks around it, spells a number below the limit. -/
def Fits (limit : Nat) (value : String) : Prop :=
  ∃ n, Spells (Text.trim value.toList) n ∧ n < limit

/-- What a setting becomes: it stays where the variable is not set, and else it is the number that the
variable spells. -/
inductive Takes (lookup : String → Option String) (name : String) (limit old : Nat) : Nat → Prop where
  | unset : lookup name = none → Takes lookup name limit old old
  | set {value n} : lookup name = some value → Spells (Text.trim value.toList) n → n < limit →
      Takes lookup name limit old n

/-- Of some variables with their limits, the first that does not fit, and its value. -/
inductive FirstRefused (lookup : String → Option String) :
    List (String × Nat) → String → String → Prop where
  | here {name limit value rest} : lookup name = some value → ¬ Fits limit value →
      FirstRefused lookup ((name, limit) :: rest) name value
  | later {name limit rest name' value'} : (∀ value, lookup name = some value → Fits limit value) →
      FirstRefused lookup rest name' value' →
      FirstRefused lookup ((name, limit) :: rest) name' value'

/-- Each number is what its variable says, and the lists are as before. -/
structure Overridden (lookup : String → Option String) (s s' : Settings) : Prop where
  formulaSampleCount : Takes lookup "SHEET_PLANNER_FORMULA_SAMPLE_COUNT" (2 ^ 32)
    s.formulaSampleCount s'.formulaSampleCount
  maxRepairs : Takes lookup "SHEET_PLANNER_MAX_REPLAN_ATTEMPTS" (2 ^ 32) s.maxRepairs s'.maxRepairs
  splitParts : Takes lookup "SHEET_PLANNER_SPLIT_PARTS" (2 ^ 32) s.splitParts s'.splitParts
  stepCountThreshold : Takes lookup "SHEET_PLANNER_STEP_COUNT_RISK_THRESHOLD" (2 ^ 64)
    s.stepCountThreshold s'.stepCountThreshold
  formulaCountThreshold : Takes lookup "SHEET_PLANNER_FORMULA_COUNT_RISK_THRESHOLD" (2 ^ 64)
    s.formulaCountThreshold s'.formulaCountThreshold
  minDescriptionChars : Takes lookup "SHEET_PLANNER_MIN_DESCRIPTION_CHARS" (2 ^ 64)
    s.minDescriptionChars s'.minDescriptionChars
  crossTableKeywords : s'.crossTableKeywords = s.crossTableKeywords
  disallowedActions : s'.disallowedActions = s.disallowedActions

variable {lookup : String → Option String} {s s' : Settings} {e : SettingsError}

section Numbers

variable {limit n : Nat} {cs digits : List Char}

/-- What stands behind the plus sign, or the whole text. -/
private def withoutPlus : List Char → List Char
  | '+' :: cs => cs
  | cs => cs

private theorem withoutPlus_of_digits (h : ∀ c ∈ digits, c.isDigit = true) :
    withoutPlus digits = digits := by
  unfold withoutPlus
  split
  · exact absurd (h '+' List.mem_cons_self) (by decide)
  · rfl

private theorem eq_or_eq_plus (cs : List Char) : cs = withoutPlus cs ∨ cs = '+' :: withoutPlus cs := by
  unfold withoutPlus
  split
  · exact .inr rfl
  · exact .inl rfl

theorem spells_iff : Spells cs n ↔ withoutPlus cs ≠ [] ∧
    (∀ c ∈ withoutPlus cs, c.isDigit = true) ∧
      n = Text.placeValue 10 Text.digit (withoutPlus cs) := by
  constructor
  · rintro ⟨digits, rfl | rfl, hsome, hdigits, hn⟩
    · rw [withoutPlus_of_digits hdigits]
      exact ⟨hsome, hdigits, hn⟩
    · exact ⟨hsome, hdigits, hn⟩
  · exact fun h => ⟨withoutPlus cs, eq_or_eq_plus cs, h⟩

theorem readNumber?_eq (limit : Nat) (cs : List Char) : readNumber? limit cs =
    if (withoutPlus cs).isEmpty || !(withoutPlus cs).all Char.isDigit then none
    else
      let n := Text.placeValue 10 Text.digit (withoutPlus cs)
      if n < limit then some n else none := by
  rw [← Text.digitsValue_eq]
  rfl

theorem readNumber?_eq_some_iff : readNumber? limit cs = some n ↔ Spells cs n ∧ n < limit := by
  rw [readNumber?_eq, spells_iff]
  split
  · next hbad =>
    refine iff_of_false (fun h => nomatch h) fun h => ?_
    obtain ⟨⟨hsome, hdigits, -⟩, -⟩ := h
    rcases Bool.or_eq_true_iff.1 hbad with hempty | hforeign
    · exact hsome (List.isEmpty_iff.1 hempty)
    · rw [Bool.not_eq_true', ← Bool.not_eq_true, List.all_eq_true] at hforeign
      exact hforeign hdigits
  · next hgood =>
    obtain ⟨hsome, hdigits⟩ : withoutPlus cs ≠ [] ∧ ∀ c ∈ withoutPlus cs, c.isDigit = true := by
      simpa using hgood
    constructor
    · intro h
      dsimp only at h
      split at h
      · next hlt =>
        cases h
        exact ⟨⟨hsome, hdigits, rfl⟩, hlt⟩
      · cases h
    · rintro ⟨⟨-, -, rfl⟩, hlt⟩
      exact if_pos hlt

theorem readNumber?_eq_none_iff {value : String} :
    readNumber? limit (Text.trim value.toList) = none ↔ ¬ Fits limit value := by
  rw [Option.eq_none_iff_forall_ne_some]
  simp only [ne_eq, readNumber?_eq_some_iff, Fits, not_exists]

theorem Takes.again {name : String} {old new : Nat} (h : Takes lookup name limit old new) :
    Takes lookup name limit new new := by
  cases h with
  | unset hunset => exact .unset hunset
  | set hset hn hlt => exact .set hset hn hlt

end Numbers

theorem Overridden.again (h : Overridden lookup s s') : Overridden lookup s' s' where
  formulaSampleCount := h.formulaSampleCount.again
  maxRepairs := h.maxRepairs.again
  splitParts := h.splitParts.again
  stepCountThreshold := h.stepCountThreshold.again
  formulaCountThreshold := h.formulaCountThreshold.again
  minDescriptionChars := h.minDescriptionChars.again
  crossTableKeywords := rfl
  disallowedActions := rfl

section Override

variable {v : Variable}

/-- One variable, for the setting that it is about. -/
theorem override_eq_ok_iff (get : Settings → Nat) (hget : ∀ s, v.set (get s) s = s) :
    override lookup s v = .ok s' ↔
      ∃ n, Takes lookup v.name v.limit (get s) n ∧ s' = v.set n s := by
  constructor
  · intro h
    unfold override at h
    split at h
    · next hunset =>
      cases h
      exact ⟨_, .unset hunset, (hget s).symm⟩
    · next value hset =>
      split at h
      · next n hread =>
        cases h
        obtain ⟨hn, hlt⟩ := readNumber?_eq_some_iff.1 hread
        exact ⟨n, .set hset hn hlt, rfl⟩
      · cases h
  · rintro ⟨n, htakes, rfl⟩
    cases htakes with
    | unset hunset => simp [override, hunset, hget]
    | set hset hn hlt => simp [override, hset, readNumber?_eq_some_iff.2 ⟨hn, hlt⟩]

theorem override_eq_error_iff : override lookup s v = .error e ↔
    ∃ value, lookup v.name = some value ∧ ¬ Fits v.limit value ∧
      e = .invalidVariable v.name value := by
  constructor
  · intro h
    unfold override at h
    split at h
    · cases h
    · next value hset =>
      split at h
      · cases h
      · next hread =>
        cases h
        exact ⟨value, hset, readNumber?_eq_none_iff.1 hread, rfl⟩
  · rintro ⟨value, hset, hbad, rfl⟩
    simp [override, hset, readNumber?_eq_none_iff.2 hbad]

/-- Going through some variables ends at the first that does not fit, and nowhere else. -/
theorem foldlM_override_eq_error_iff {vs : List Variable} :
    vs.foldlM (override lookup) s = .error e ↔ ∃ name value,
      FirstRefused lookup (vs.map fun v => (v.name, v.limit)) name value ∧
        e = .invalidVariable name value := by
  induction vs generalizing s with
  | nil =>
    refine iff_of_false (fun h => nomatch h) ?_
    rintro ⟨_, _, ⟨⟩, -⟩
  | cons v vs ih =>
    rw [List.foldlM_cons, bind_eq_error_iff, override_eq_error_iff, List.map_cons]
    constructor
    · rintro (⟨value, hset, hbad, rfl⟩ | ⟨s', hok, hrest⟩)
      · exact ⟨_, _, .here hset hbad, rfl⟩
      · obtain ⟨name, value, hfirst, rfl⟩ := ih.1 hrest
        refine ⟨name, value, .later (fun x hx => ?_) hfirst, rfl⟩
        by_contra hbad
        rw [override_eq_error_iff.2 ⟨x, hx, hbad, rfl⟩] at hok
        cases hok
    · rintro ⟨name, value, hfirst, rfl⟩
      cases hfirst with
      | here hset hbad => exact .inl ⟨value, hset, hbad, rfl⟩
      | later hfits hfirst =>
        cases hv : override lookup s v with
        | error e =>
          obtain ⟨x, hx, hbad, -⟩ := override_eq_error_iff.1 hv
          exact absurd (hfits x hx) hbad
        | ok s' => exact .inr ⟨s', rfl, ih.2 ⟨name, value, hfirst, rfl⟩⟩

end Override

/-- The variables in the order in which they are looked at, each with the first number too large for it. -/
def ranges : List (String × Nat) :=
  [("SHEET_PLANNER_FORMULA_SAMPLE_COUNT", 2 ^ 32), ("SHEET_PLANNER_MAX_REPLAN_ATTEMPTS", 2 ^ 32),
    ("SHEET_PLANNER_SPLIT_PARTS", 2 ^ 32), ("SHEET_PLANNER_STEP_COUNT_RISK_THRESHOLD", 2 ^ 64),
    ("SHEET_PLANNER_FORMULA_COUNT_RISK_THRESHOLD", 2 ^ 64),
    ("SHEET_PLANNER_MIN_DESCRIPTION_CHARS", 2 ^ 64)]

theorem foldlM_all_eq_ok_iff :
    Variable.all.foldlM (override lookup) s = .ok s' ↔ Overridden lookup s s' := by
  simp only [Variable.all, List.foldlM_cons, List.foldlM_nil, bind_eq_ok_iff]
  constructor
  · rintro ⟨_, h₁, _, h₂, _, h₃, _, h₄, _, h₅, _, h₆, hend⟩
    obtain ⟨_, t₁, rfl⟩ := (override_eq_ok_iff (·.formulaSampleCount) fun _ => rfl).1 h₁
    obtain ⟨_, t₂, rfl⟩ := (override_eq_ok_iff (·.maxRepairs) fun _ => rfl).1 h₂
    obtain ⟨_, t₃, rfl⟩ := (override_eq_ok_iff (·.splitParts) fun _ => rfl).1 h₃
    obtain ⟨_, t₄, rfl⟩ := (override_eq_ok_iff (·.stepCountThreshold) fun _ => rfl).1 h₄
    obtain ⟨_, t₅, rfl⟩ := (override_eq_ok_iff (·.formulaCountThreshold) fun _ => rfl).1 h₅
    obtain ⟨_, t₆, rfl⟩ := (override_eq_ok_iff (·.minDescriptionChars) fun _ => rfl).1 h₆
    cases hend
    exact ⟨t₁, t₂, t₃, t₄, t₅, t₆, rfl, rfl⟩
  · intro h
    refine ⟨_, (override_eq_ok_iff (·.formulaSampleCount) fun _ => rfl).2 ⟨_, h.formulaSampleCount, rfl⟩,
      _, (override_eq_ok_iff (·.maxRepairs) fun _ => rfl).2 ⟨_, h.maxRepairs, rfl⟩,
      _, (override_eq_ok_iff (·.splitParts) fun _ => rfl).2 ⟨_, h.splitParts, rfl⟩,
      _, (override_eq_ok_iff (·.stepCountThreshold) fun _ => rfl).2 ⟨_, h.stepCountThreshold, rfl⟩,
      _, (override_eq_ok_iff (·.formulaCountThreshold) fun _ => rfl).2 ⟨_, h.formulaCountThreshold, rfl⟩,
      _, (override_eq_ok_iff (·.minDescriptionChars) fun _ => rfl).2 ⟨_, h.minDescriptionChars, rfl⟩, ?_⟩
    obtain ⟨-, -, -, -, -, -, hkeywords, hactions⟩ := h
    cases s'
    simp only at hkeywords hactions
    rw [hkeywords, hactions]
    rfl

theorem validate_eq_ok_iff :
    s.validate = .ok s' ↔ s' = s ∧ 0 < s.formulaSampleCount ∧ 0 < s.splitParts := by
  unfold validate
  split
  · next hsample => exact iff_of_false (fun h => nomatch h) (by omega)
  · split
    · next hparts => exact iff_of_false (fun h => nomatch h) (by omega)
    · rw [Except.ok.injEq, eq_comm, iff_self_and]
      omega

/-- The sample count is looked at first. -/
theorem validate_eq_error_iff : s.validate = .error e ↔
    s.formulaSampleCount = 0 ∧ e = .outOfRange "formula_sample_count" 1 0 ∨
      0 < s.formulaSampleCount ∧ s.splitParts = 0 ∧ e = .outOfRange "split_parts" 1 0 := by
  unfold validate
  split
  · next hsample =>
    have hzero : s.formulaSampleCount = 0 := by omega
    simp [hzero, eq_comm]
  · next hsample =>
    have hsome : 0 < s.formulaSampleCount := by omega
    split
    · next hparts =>
      have hzero : s.splitParts = 0 := by omega
      simp [hzero, hsome, Nat.ne_of_gt hsome, eq_comm]
    · next hparts =>
      exact iff_of_false (fun h => nomatch h) (by omega)

/-- The first variable that does not fit is the error. Without one each setting is what its variable
says, and all are validated. -/
theorem withEnvironment_exact (lookup : String → Option String) (s : Settings) :
    (∀ e, withEnvironment lookup s = .error e ↔
      (∃ name value, FirstRefused lookup ranges name value ∧ e = .invalidVariable name value) ∨
      ∃ s', Overridden lookup s s' ∧
        (s'.formulaSampleCount = 0 ∧ e = .outOfRange "formula_sample_count" 1 0 ∨
          0 < s'.formulaSampleCount ∧ s'.splitParts = 0 ∧ e = .outOfRange "split_parts" 1 0)) ∧
    (∀ s', withEnvironment lookup s = .ok s' ↔
      Overridden lookup s s' ∧ 0 < s'.formulaSampleCount ∧ 0 < s'.splitParts) ∧
    withEnvironment lookup s >>= withEnvironment lookup = withEnvironment lookup s := by
  have hok : ∀ s s', withEnvironment lookup s = .ok s' ↔
      Overridden lookup s s' ∧ 0 < s'.formulaSampleCount ∧ 0 < s'.splitParts := by
    intro s s'
    simp only [withEnvironment, bind_eq_ok_iff, foldlM_all_eq_ok_iff, validate_eq_ok_iff]
    constructor
    · rintro ⟨_, hs, rfl, hlimits⟩
      exact ⟨hs, hlimits⟩
    · rintro ⟨hs, hlimits⟩
      exact ⟨_, hs, rfl, hlimits⟩
  have hranges : ranges = Variable.all.map fun v => (v.name, v.limit) := rfl
  have hagain : withEnvironment lookup s >>= withEnvironment lookup = withEnvironment lookup s := by
    cases h : withEnvironment lookup s with
    | error e => rfl
    | ok s' =>
      obtain ⟨hs, hlimits⟩ := (hok s s').1 h
      exact (hok s' s').2 ⟨hs.again, hlimits⟩
  refine ⟨fun e => ?_, hok s, hagain⟩
  simp only [withEnvironment, bind_eq_error_iff, foldlM_all_eq_ok_iff, validate_eq_error_iff,
    foldlM_override_eq_error_iff, hranges]

/-- A text of digits counts whatever its length, and the error is told with the blanks of the value. -/
example :
    let lookup (more : String) : String → Option String
      | "SHEET_PLANNER_SPLIT_PARTS" => some " +0000000000000007 "
      | "SHEET_PLANNER_MIN_DESCRIPTION_CHARS" => some more
      | _ => none
    withEnvironment (lookup "4294967296") {} =
        .ok { splitParts := 7, minDescriptionChars := 4294967296 } ∧
      withEnvironment (lookup " - 1") {} =
        .error (.invalidVariable "SHEET_PLANNER_MIN_DESCRIPTION_CHARS" " - 1") := by
  decide +kernel

end WorkbookPlan.Settings
