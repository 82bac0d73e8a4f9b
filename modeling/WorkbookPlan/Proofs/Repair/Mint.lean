import WorkbookPlan.Proofs.Text.Digits
import WorkbookPlan.Repair.Patch

/-! Names of new steps: repairs of different numbers give different names, and so do the steps of
one repair. -/
namespace WorkbookPlan

/-- A name that a repair behind the first `count` ones may give. -/
def Minted (tokens : Nat → String) (count : Nat) (id : StepId) : Prop :=
  ∃ n k, count < n ∧ id = Mint.id ⟨n, tokens n⟩ k

theorem Minted.mono {tokens : Nat → String} {m n : Nat} {id : StepId} (h : Minted tokens n id)
    (hmn : m ≤ n) : Minted tokens m id := by
  obtain ⟨i, k, hi, rfl⟩ := h
  exact ⟨i, k, by omega, rfl⟩

namespace Mint

theorem toList_id (m : Mint) (k : Nat) :
    (m.id k).toList =
      'r' :: (Nat.toDigits 10 m.attempt ++ '_' :: (m.token.toList ++ '_' :: Nat.toDigits 10 k)) := by
  simp [Mint.id]

theorem attempt_eq_of_id_eq {m n : Mint} {j k : Nat} (h : m.id j = n.id k) :
    m.attempt = n.attempt := by
  have hchars := congrArg String.toList h
  rw [toList_id, toList_id] at hchars
  exact Text.eq_of_digits_append (List.cons.inj hchars).2

theorem id_injective (m : Mint) : Function.Injective m.id := by
  intro j k h
  have hchars := congrArg String.toList h
  rw [toList_id, toList_id] at hchars
  have htail := List.append_cancel_left (List.cons.inj hchars).2
  have hnumber := List.append_cancel_left (List.cons.inj htail).2
  exact Text.toDigits_injective (List.cons.inj hnumber).2

end Mint

theorem Minted.head? {tokens : Nat → String} {count : Nat} {id : StepId}
    (h : Minted tokens count id) : id.toList.head? = some 'r' := by
  obtain ⟨n, k, -, rfl⟩ := h
  rw [Mint.toList_id, List.head?_cons]

/-- A name of one repair is none of a later one. -/
theorem not_minted_id (tokens : Nat → String) (m : Mint) (k : Nat) :
    ¬ Minted tokens m.attempt (m.id k) := by
  rintro ⟨n, j, hn, h⟩
  have hattempt : m.attempt = n := Mint.attempt_eq_of_id_eq h
  omega

theorem minted_id {tokens : Nat → String} {count n : Nat} (h : count < n) (k : Nat) :
    Minted tokens count (Mint.id ⟨n, tokens n⟩ k) :=
  ⟨n, k, h, rfl⟩

end WorkbookPlan
