import Mathlib
import Metrology.Proofs.Binary64.Whole

/-!
# Metrology.Proofs.Binary64.Bounded -- sums that small summands do not drive to infinity

At a power of two the gap to the next number above is a known one, and a summand of at most half of
it is rounded away: a tie goes to the power of two, whose significand is even
(`nearest_le_two_pow`). So however many numbers of at most `2³¹` are added up, the sum never leaves
`2⁸⁴`, and in particular it stays finite (`Within.add_small`).

A finite number is close to itself, exact or not (`close_self`).
-/

namespace Metrology

/- A power of naturals is the core one, whatever else is imported beside this module. -/
attribute [local instance (high)] instPowNat

namespace Magnitude

theorem nearest_le_of_lt_two_pow {k n : Nat} (h : n < 2 ^ k) : nearest n 1 ≤ 2 ^ k := by
  have hgap : 0 < gap n := Nat.pow_pos (by decide)
  have hdvd : gap n ∣ 2 ^ k := by
    by_cases hn : n = 0
    · subst hn
      exact Nat.one_dvd _
    · have hlog : n.log2 < k := (Nat.log2_lt hn).mpr h
      have hbits : 1 ≤ precision := by decide
      exact Nat.pow_dvd_pow 2 (by omega)
  have hlt : n / gap n < 2 ^ k / gap n := by
    rw [Nat.div_lt_iff_lt_mul hgap, Nat.div_mul_cancel hdvd]
    exact h
  have hround := roundDiv_le_succ n (gap n)
  rw [nearest, Nat.div_one, Nat.one_mul]
  calc roundDiv n (gap n) * gap n ≤ 2 ^ k / gap n * gap n :=
        Nat.mul_le_mul_right _ (by omega)
    _ = 2 ^ k := Nat.div_mul_cancel hdvd

/-- What exceeds a power of two by at most half of the gap there is rounded down to it. -/
theorem nearest_le_two_pow {k n : Nat} (hk : precision ≤ k) (h : n ≤ 2 ^ k + 2 ^ (k - precision)) :
    nearest n 1 ≤ 2 ^ k := by
  by_cases hlt : n < 2 ^ k
  · exact nearest_le_of_lt_two_pow hlt
  · obtain ⟨r, rfl⟩ := Nat.exists_eq_add_of_le (Nat.le_of_not_lt hlt)
    have hr : r ≤ 2 ^ (k - precision) := Nat.le_of_add_le_add_left h
    have hhalf : 0 < 2 ^ (k - precision) := Nat.pow_pos (by decide)
    have hpow : 2 ^ k = 2 * 2 ^ (k - precision) * 2 ^ 52 := by
      have hbits : precision = 53 := rfl
      rw [Nat.mul_comm 2, ← Nat.pow_succ, ← Nat.pow_add]
      congr 1
      omega
    have hlog : (2 ^ k + r).log2 = k := by
      rw [Nat.log2_eq_iff (by omega), Nat.pow_succ]
      omega
    have hgap : gap (2 ^ k + r) = 2 * 2 ^ (k - precision) := by
      rw [gap, hlog, Nat.mul_comm 2, ← Nat.pow_succ]
      congr 1
      omega
    have hquotient : (2 ^ k + r) / (2 * 2 ^ (k - precision)) = 2 ^ 52 := by
      rw [hpow, Nat.mul_add_div (by omega), Nat.div_eq_of_lt (by omega), Nat.add_zero]
    have hrest : (2 ^ k + r) % (2 * 2 ^ (k - precision)) = r := by
      rw [hpow, Nat.mul_add_mod, Nat.mod_eq_of_lt (by omega)]
    -- The rest is at most half a gap, and in the tie the power of two is even.
    have hround : roundDiv (2 ^ k + r) (2 * 2 ^ (k - precision)) = 2 ^ 52 := by
      rw [roundDiv, hquotient, hrest, if_neg]
      omega
    rw [nearest, Nat.div_one, Nat.one_mul, hgap, hround, hpow, Nat.mul_comm]

end Magnitude

namespace Binary64

open Magnitude

/-- Whether a number is finite and at most `2 ^ k` away from zero. -/
def Within (k : Nat) : Binary64 → Prop
  | .finite _ m => m.steps ≤ 2 ^ (k + stepExponent)
  | _ => False

theorem Within.isFinite {k : Nat} {x : Binary64} (h : x.Within k) : x.isFinite = true := by
  cases x with
  | nan s => exact h.elim
  | infinite s => exact h.elim
  | finite s m => rfl

theorem Within.mono {k l : Nat} {x : Binary64} (h : x.Within k) (hkl : k ≤ l) : x.Within l := by
  cases x with
  | nan s => exact h.elim
  | infinite s => exact h.elim
  | finite s m => exact Nat.le_trans h (Nat.pow_le_pow_right (by decide) (by omega))

theorem Holds.within {k : Nat} {x : Binary64} {z : Int} (h : x.Holds z) (hz : z.natAbs ≤ 2 ^ k) :
    x.Within k := by
  obtain ⟨s, m, rfl, hm⟩ := h.exists_finite
  show m.steps ≤ 2 ^ (k + stepExponent)
  rw [signedSteps_eq_mul hm, Nat.pow_add]
  unfold stepsPerUnit
  exact Nat.mul_le_mul_right _ hz

/-- A sum does not leave a power of two when one summand is within it, and the other within half of
the gap that follows it. -/
theorem Within.add_small {k : Nat} {x y : Binary64} (hk : precision ≤ k) (hlimit : k < 1024)
    (hx : x.Within k) (hy : y.Within (k - precision)) : (x + y).Within k := by
  cases x with
  | nan s => exact hx.elim
  | infinite s => exact hx.elim
  | finite s a =>
    cases y with
    | nan t => exact hy.elim
    | infinite t => exact hy.elim
    | finite t b =>
      have ha : a.steps ≤ 2 ^ (k + stepExponent) := hx
      have hb : b.steps ≤ 2 ^ (k - precision + stepExponent) := hy
      rw [show k - precision + stepExponent = k + stepExponent - precision by omega] at hb
      have hsum : (signedSteps s a + signedSteps t b).natAbs ≤ a.steps + b.steps := by
        rw [← natAbs_signedSteps s a, ← natAbs_signedSteps t b]
        exact Int.natAbs_add_le _ _
      have hnear : nearest (signedSteps s a + signedSteps t b).natAbs 1 ≤ 2 ^ (k + stepExponent) :=
        nearest_le_two_pow (by omega) (by omega)
      have hbelow : nearest (signedSteps s a + signedSteps t b).natAbs 1 < limit := by
        have hend : limitExponent = 1024 + stepExponent := rfl
        refine Nat.lt_of_le_of_lt hnear ?_
        unfold limit
        exact Nat.pow_lt_pow_right (by decide) (by omega)
      show (ofSignedSteps (s && t) (signedSteps s a + signedSteps t b)).Within k
      rw [ofSignedSteps, ofRatio, dif_pos hbelow]
      exact hnear

/-- The difference of a finite number and itself is an exact zero. -/
theorem close_self {x : Binary64} (h : x.isFinite = true) : Exponent.close x x = true := by
  cases x with
  | nan s => cases h
  | infinite s => cases h
  | finite s m =>
    have hsteps : signedSteps s m + signedSteps (!s) m = 0 := by
      rw [signedSteps_neg, Int.add_right_neg]
    have hzero : Binary64.finite s m - .finite s m = zero false := by
      show ofSignedSteps (s && !s) (signedSteps s m + signedSteps (!s) m) = zero false
      rw [hsteps, Bool.and_not_self]
      rfl
    rw [Exponent.close, hzero]
    decide +kernel

end Binary64

end Metrology
