import WorkbookPlan.Proofs.Decimal.Nearest

/-! The shortest digits of a number denote a decimal that the number is nearest to. -/
namespace WorkbookPlan.Decimal.Binary64

variable {x : Binary64}

structure Hit (x : Binary64) (d : Digits) : Prop where
  pos : 0 < d.digits
  inGap : x.inGap (d.digits * (Nat.pow 10 (d.scale - 400) * Nat.pow 2 1076))
    (Nat.pow 10 (400 - d.scale)) = true

theorem hit_of_onGrid? {scale : Nat} {d : Digits} (h : x.onGrid? scale = some d) : x.Hit d := by
  unfold onGrid? at h
  -- as a literal the power would be computed
  generalize hunit : Nat.pow 2 1076 = unit at h
  rw [Option.map_eq_some_iff] at h
  obtain ⟨k, hk, rfl⟩ := h
  have hfound := List.find?_some hk
  rw [Bool.and_eq_true, decide_eq_true_eq] at hfound
  refine ⟨hfound.1, ?_⟩
  rw [hunit]
  exact hfound.2

/-- What is below the magnitude by less than the least gap lies in the gap. -/
theorem inGap_of_close {n d : Nat} (hpos : 0 < n) (hle : n ≤ 4 * x.units * d)
    (hlt : 4 * x.units * d < n + d) : x.inGap n d = true := by
  have hunit : 0 < 2 ^ x.exponent := Nat.two_pow_pos x.exponent
  have hstep : d ≤ 2 ^ x.exponent * d := Nat.le_mul_of_pos_left d hunit
  have hsteps : 2 * 2 ^ x.exponent * d = 2 * (2 ^ x.exponent * d) := Nat.mul_assoc 2 _ _
  have hvalue : 4 * x.mantissa * 2 ^ x.exponent = 4 * x.units := Nat.mul_assoc 4 _ _
  have hbelow : d ≤ (if x.fractionField = 0 ∧ 1 < x.exponentField then 2 ^ x.exponent
      else 2 * 2 ^ x.exponent) * d := by
    split <;> omega
  unfold Binary64.inGap gap
  simp only [Nat.pow_eq, hvalue, Nat.sub_mul, Nat.add_mul, hsteps]
  split
  · rw [Bool.and_eq_true, decide_eq_true_eq, decide_eq_true_eq]
    omega
  · rw [Bool.and_eq_true, decide_eq_true_eq, decide_eq_true_eq]
    omega

/-- On a grid that is finer than the least gap some digits are found. -/
theorem onGrid?_isSome (h : x.mantissa ≠ 0) {scale : Nat}
    (hfine : Nat.pow 10 (scale - 400) * Nat.pow 2 1076 < Nat.pow 10 (400 - scale)) :
    (x.onGrid? scale).isSome = true := by
  have hunits : 0 < x.units := Nat.mul_pos (Nat.pos_of_ne_zero h) (Nat.two_pow_pos x.exponent)
  have hvalue : x.gap.2.1 = 4 * x.units := Nat.mul_assoc 4 _ _
  have hpower : ∀ b e, 0 < b → 0 < Nat.pow b e := fun _ _ hb => Nat.pow_pos hb
  have hstep : 0 < Nat.pow 10 (scale - 400) * Nat.pow 2 1076 :=
    Nat.mul_pos (hpower 10 _ (by decide)) (hpower 2 1076 (by decide))
  unfold onGrid?
  generalize Nat.pow 10 (scale - 400) * Nat.pow 2 1076 = num at hfine hstep ⊢
  generalize Nat.pow 10 (400 - scale) = den at hfine ⊢
  rw [← Prod.mk.eta (p := x.gap), ← Prod.mk.eta (p := x.gap.2)]
  simp only [hvalue, Option.isSome_map, List.find?_isSome]
  have hlarge : den ≤ 4 * x.units * den := Nat.le_mul_of_pos_left den (by omega)
  have hpos : 0 < 4 * x.units * den / num := Nat.div_pos (by omega) hstep
  refine ⟨4 * x.units * den / num, ?_, ?_⟩
  · split <;> simp
  · have hle : 4 * x.units * den / num * num ≤ 4 * x.units * den := Nat.div_mul_le_self _ _
    have hlt : 4 * x.units * den < 4 * x.units * den / num * num + num :=
      Nat.lt_div_mul_add hstep
    rw [Bool.and_eq_true, decide_eq_true_eq]
    exact ⟨hpos, inGap_of_close (Nat.mul_pos hpos hstep) hle (by omega)⟩

theorem hit_shortestFrom (h : x.mantissa ≠ 0) {scale : Nat} (hscale : 76 ≤ scale) :
    x.Hit (x.shortestFrom scale) := by
  induction scale, hscale using Nat.le_induction with
  | base =>
    have hfine : Nat.pow 10 (76 - 400) * Nat.pow 2 1076 < Nat.pow 10 (400 - 76) := by
      decide +kernel
    obtain ⟨d, hd⟩ := Option.isSome_iff_exists.1 (@onGrid?_isSome x h 76 hfine)
    have hfirst : x.shortestFrom 76 = d := by
      rw [shortestFrom, hd, Option.getD_some]
    rw [hfirst]
    exact hit_of_onGrid? hd
  | succ scale _ ih =>
    rw [shortestFrom]
    cases hgrid : x.onGrid? (scale + 1) with
    | none => exact ih
    | some d => exact hit_of_onGrid? hgrid

/-- The shortest digits denote a decimal that the number is nearest to. -/
theorem nearest?_shortest (hx : x.isFinite = true) (h : x.mantissa ≠ 0) :
    nearest? x.isNegative (x.shortest.digits * 10 ^ (x.shortest.scale - 400))
      (10 ^ (400 - x.shortest.scale)) = some x := by
  obtain ⟨hpos, hgap⟩ : x.Hit x.shortest := hit_shortestFrom h (by decide)
  have hpower : ∀ b e, 0 < b → 0 < Nat.pow b e := fun _ _ hb => Nat.pow_pos hb
  have hden : 0 < Nat.pow 10 (400 - x.shortest.scale) := hpower 10 _ (by decide)
  have hunit : 0 < Nat.pow 2 1076 := hpower 2 1076 (by decide)
  have hnear := nearest?_of_inGap hx hden hgap
  generalize Nat.pow 2 1076 = unit at hnear hunit
  rw [← Nat.mul_assoc, Nat.mul_comm _ unit, Nat.mul_comm _ unit, nearest?_mul_left hunit] at hnear
  exact hnear

end WorkbookPlan.Decimal.Binary64
