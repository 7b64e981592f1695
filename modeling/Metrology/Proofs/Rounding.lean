import Mathlib
import Metrology.Rounding

/-!
# Metrology.Proofs.Rounding -- the nearest whole number, ties to even

What rounding means is said of a rational number: a whole number at most one half away from it, and
an even one in a tie (`IsHalfEven`). There is at most one such number (`IsHalfEven.unique`), and
`roundDiv` gives it (`isHalfEven_roundDiv`). No whole number is nearer, and another one is as near
only in a tie (`IsHalfEven.closest`, `IsHalfEven.even_of_abs_eq`).

The count of decimal digits is the least exponent of a power of ten that is beyond the number
(`digitCount_le_iff`).
-/

namespace Metrology

/- A power of naturals is the core one, whatever else is imported beside this module. -/
attribute [local instance (high)] instPowNat

/-! ## The nearest whole number -/

/-- Whether `n` is the whole number nearest to `r`, the even one in a tie. -/
def IsHalfEven (r : ℚ) (n : ℕ) : Prop :=
  2 * |(n : ℚ) - r| ≤ 1 ∧ (2 * |(n : ℚ) - r| = 1 → Even n)

namespace IsHalfEven

variable {r : ℚ} {n : ℕ}

theorem abs_sub_ge_one {m n : ℕ} (h : m ≠ n) : 1 ≤ |(m : ℚ) - n| := by
  have hne : (m : ℤ) - n ≠ 0 := by omega
  exact_mod_cast Int.one_le_abs hne

/-- Another whole number is at least one half away. -/
theorem one_le_of_ne (h : IsHalfEven r n) {m : ℕ} (hm : m ≠ n) : 1 ≤ 2 * |(m : ℚ) - r| := by
  have hapart := abs_sub_ge_one hm
  have htriangle : |(m : ℚ) - n| ≤ |(m : ℚ) - r| + |(n : ℚ) - r| := by
    rw [abs_sub_comm (n : ℚ) r]
    exact abs_sub_le _ _ _
  have hhalf := h.1
  linarith

theorem closest (h : IsHalfEven r n) (m : ℕ) : |(n : ℚ) - r| ≤ |(m : ℚ) - r| := by
  by_cases hm : m = n
  · rw [hm]
  · have hhalf := h.1
    have hfar := h.one_le_of_ne hm
    linarith

theorem even_of_abs_eq (h : IsHalfEven r n) {m : ℕ} (hm : m ≠ n)
    (heq : |(n : ℚ) - r| = |(m : ℚ) - r|) : Even n := by
  have hfar := h.one_le_of_ne hm
  rw [← heq] at hfar
  exact h.2 (le_antisymm h.1 hfar)

theorem unique {m : ℕ} (h : IsHalfEven r n) (h' : IsHalfEven r m) : n = m := by
  by_contra hne
  have heq : |(n : ℚ) - r| = |(m : ℚ) - r| := le_antisymm (h.closest m) (h'.closest n)
  -- Both are one half away, so they are neighbours, and one of them is odd.
  have hn : Even n := h.even_of_abs_eq (Ne.symm hne) heq
  have hm : Even m := h'.even_of_abs_eq hne heq.symm
  have hnear : |(n : ℚ) - m| ≤ 1 := by
    have htriangle : |(n : ℚ) - m| ≤ |(n : ℚ) - r| + |(m : ℚ) - r| := by
      rw [abs_sub_comm (m : ℚ) r]
      exact abs_sub_le _ _ _
    have hhalf := h.1
    have hhalf' := h'.1
    linarith
  have hbound : |(n : ℤ) - m| ≤ 1 := by exact_mod_cast hnear
  rw [abs_le] at hbound
  obtain ⟨a, ha⟩ := hn
  obtain ⟨b, hb⟩ := hm
  omega

end IsHalfEven

/-- A whole number is kept. -/
theorem isHalfEven_natCast (n : ℕ) : IsHalfEven n n := by
  unfold IsHalfEven
  rw [sub_self, abs_zero]
  norm_num

/-- Rounding a quotient gives the nearest whole number, the even one in a tie. -/
theorem isHalfEven_roundDiv (n : ℕ) {d : ℕ} (hd : 0 < d) :
    IsHalfEven ((n : ℚ) / d) (roundDiv n d) := by
  have hdpos : (0 : ℚ) < d := by exact_mod_cast hd
  have hcut : (n : ℚ) / d = (n / d : ℕ) + ((n % d : ℕ) : ℚ) / d := by
    rw [div_eq_iff hdpos.ne', add_mul, div_mul_cancel₀ _ hdpos.ne', mul_comm]
    exact_mod_cast (Nat.div_add_mod n d).symm
  -- Twice the rest, as a part of the divisor, tells which neighbour is nearer.
  have htwice : 2 * (((n % d : ℕ) : ℚ) / d) = ((2 * (n % d) : ℕ) : ℚ) / d := by
    rw [Nat.cast_mul, Nat.cast_ofNat, mul_div_assoc]
  have hle : 2 * (((n % d : ℕ) : ℚ) / d) ≤ 1 ↔ 2 * (n % d) ≤ d := by
    rw [htwice, div_le_one hdpos, Nat.cast_le]
  have hge : 1 ≤ 2 * (((n % d : ℕ) : ℚ) / d) ↔ d ≤ 2 * (n % d) := by
    rw [htwice, one_le_div hdpos, Nat.cast_le]
  have hrest : 0 ≤ ((n % d : ℕ) : ℚ) / d := div_nonneg (Nat.cast_nonneg _) hdpos.le
  have hbelow : ((n % d : ℕ) : ℚ) / d < 1 := by
    rw [div_lt_one hdpos, Nat.cast_lt]
    exact Nat.mod_lt n hd
  rw [hcut]
  generalize ((n % d : ℕ) : ℚ) / d = x at hle hge hrest hbelow
  unfold roundDiv
  split_ifs with hup
  · have habs : |((n / d + 1 : ℕ) : ℚ) - ((n / d : ℕ) + x)| = 1 - x := by
      rw [Nat.cast_add, Nat.cast_one, add_sub_add_left_eq_sub, abs_of_pos (by linarith)]
    rw [IsHalfEven, habs]
    refine ⟨by linarith [hge.mpr (by omega)], fun htie => ?_⟩
    have hodd := hle.mp (by linarith)
    exact Nat.even_add_one.mpr (Nat.not_even_iff.mpr (by omega))
  · have habs : |((n / d : ℕ) : ℚ) - ((n / d : ℕ) + x)| = x := by
      rw [sub_add_cancel_left, abs_neg, abs_of_nonneg hrest]
    rw [IsHalfEven, habs]
    refine ⟨hle.mpr (by omega), fun htie => ?_⟩
    have hfull := hge.mp htie.ge
    exact Nat.even_iff.mpr (by omega)

/-! ## Decimal digits -/

theorem digitCount_le_iff {n k : ℕ} : digitCount n ≤ k ↔ n < 10 ^ k := by
  induction k generalizing n with
  | zero =>
    rw [digitCount]
    split_ifs with hn
    · simp [hn]
    · simp [hn]
  | succ k ih =>
    rw [digitCount]
    split_ifs with hn
    · simp [hn]
    · rw [Nat.add_le_add_iff_right, ih, Nat.div_lt_iff_lt_mul (by omega), Nat.pow_succ]

/-- A positive number is at least the power of ten that has as many digits, and less than the next. -/
theorem exists_digitCount_eq {n : ℕ} (h : 0 < n) :
    ∃ k, digitCount n = k + 1 ∧ 10 ^ k ≤ n ∧ n < 10 ^ (k + 1) := by
  have hpos : ¬ digitCount n ≤ 0 := by
    rw [digitCount_le_iff, Nat.pow_zero]
    omega
  obtain ⟨k, hk⟩ := Nat.exists_eq_succ_of_ne_zero (Nat.ne_of_gt (Nat.lt_of_not_le hpos))
  refine ⟨k, hk, ?_, digitCount_le_iff.mp hk.le⟩
  rw [← Nat.not_lt, ← digitCount_le_iff]
  omega

end Metrology
