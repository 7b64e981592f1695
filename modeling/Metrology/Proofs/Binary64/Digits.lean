import Mathlib
import Metrology.Binary64.Decimal
import Metrology.Proofs.Binary64.Nearest

/-!
# Metrology.Proofs.Binary64.Digits -- significant digits of a magnitude

A magnitude is written with a count of significant digits, rounded to the last of them. What that
is, is said of its value (`IsRounding`): the digits are a whole number of units of a power of ten,
the one that leaves as many digits as are asked for, and rounding gives the whole number that is
nearest, the even one in a tie. `significant` gives that number (`isRounding_significant`).

Seventeen digits are enough to tell a magnitude: the value that they show rounds to it again
(`isNearest_of_isRounding`), since rounding moves it by less than `2⁻⁵⁴` of itself.
-/

namespace Metrology

/- A power of naturals is the core one, whatever else is imported beside this module. -/
attribute [local instance (high)] instPowNat

/-- A power of ten, as a quotient of naturals. -/
theorem ten_zpow_eq (z : ℤ) : (10 : ℚ) ^ z = 10 ^ z.toNat / 10 ^ (-z).toNat := by
  rw [eq_div_iff (by positivity), ← zpow_natCast, ← zpow_natCast, ← zpow_add₀ (by norm_num)]
  congr 1
  omega

/-! ## Values and their digits -/

/-- The place of the last digit of a number with the given count of significant digits. -/
def lastPlace (digits : ℕ) (v : ℚ) : ℤ := Int.log 10 v + 1 - digits

/-- Whether `d` is the number `v` rounded to a count of significant digits, a tie going to the even
last digit. -/
def IsRounding (digits : ℕ) (v d : ℚ) : Prop :=
  ∃ n : ℕ, IsHalfEven (v / 10 ^ lastPlace digits v) n ∧ d = n * 10 ^ lastPlace digits v

theorem IsRounding.unique {digits : ℕ} {v d d' : ℚ} (h : IsRounding digits v d)
    (h' : IsRounding digits v d') : d = d' := by
  obtain ⟨n, hn, rfl⟩ := h
  obtain ⟨n', hn', rfl⟩ := h'
  rw [hn.unique hn']

theorem isRounding_zero_iff {digits : ℕ} {d : ℚ} : IsRounding digits 0 d ↔ d = 0 := by
  have hzero : IsHalfEven (0 / 10 ^ lastPlace digits 0) 0 := by
    rw [zero_div]
    exact isHalfEven_natCast 0
  have hrounding : IsRounding digits 0 0 := ⟨0, hzero, by rw [Nat.cast_zero, zero_mul]⟩
  refine ⟨fun h => h.unique hrounding, ?_⟩
  rintro rfl
  exact hrounding

/-- Rounding moves a number by half a unit of the last place at most. -/
theorem IsRounding.abs_sub_le {digits : ℕ} {v d : ℚ} (h : IsRounding digits v d) :
    2 * |v - d| ≤ 10 ^ lastPlace digits v := by
  obtain ⟨n, hn, rfl⟩ := h
  have hunit : (0 : ℚ) < 10 ^ lastPlace digits v := by positivity
  have hscale : |v - n * 10 ^ lastPlace digits v| =
      |(n : ℚ) - v / 10 ^ lastPlace digits v| * 10 ^ lastPlace digits v := by
    rw [← abs_of_pos hunit, ← abs_mul, sub_mul, abs_of_pos hunit, div_mul_cancel₀ _ hunit.ne',
      abs_sub_comm]
  have hhalf := hn.1
  rw [hscale]
  nlinarith

namespace Magnitude

/-- The value of a count of steps. -/
def valueOf (steps : ℕ) : ℚ := steps / stepsPerUnit

variable {steps : ℕ}

theorem valueOf_pos (h : 0 < steps) : 0 < valueOf steps :=
  div_pos (by exact_mod_cast h) (by exact_mod_cast stepsPerUnit_pos)

theorem valueOf_zero : valueOf 0 = 0 := by rw [valueOf, Nat.cast_zero, zero_div]

theorem valueOf_mul (steps : ℕ) : valueOf steps * stepsPerUnit = steps :=
  div_mul_cancel₀ _ (by exact_mod_cast stepsPerUnit_pos.ne')

/-- Seventeen digits show a magnitude closely enough for rounding to find it again. -/
theorem isNearest_of_isRounding {d : ℚ} (hprecise : Precise steps)
    (h : IsRounding 17 (valueOf steps) d) : IsNearest (d * stepsPerUnit) steps := by
  have hunits : (0 : ℚ) < stepsPerUnit := by exact_mod_cast stepsPerUnit_pos
  have hmoved := h.abs_sub_le
  have hscale : |(steps : ℚ) - d * stepsPerUnit| = |valueOf steps - d| * stepsPerUnit := by
    rw [← valueOf_mul, ← sub_mul, abs_mul, abs_of_pos hunits]
  by_cases hzero : steps = 0
  · subst hzero
    rw [valueOf_zero, isRounding_zero_iff] at h
    rw [h, zero_mul]
    exact isNearest_natCast hprecise
  · have hpos := valueOf_pos (Nat.pos_of_ne_zero hzero)
    have hplace : (10 : ℚ) ^ (16 : ℤ) * 10 ^ lastPlace 17 (valueOf steps) ≤ valueOf steps := by
      have hlast : 16 + lastPlace 17 (valueOf steps) = Int.log 10 (valueOf steps) := by
        rw [lastPlace]
        omega
      rw [← zpow_add₀ (by norm_num), hlast]
      exact_mod_cast Int.zpow_log_le_self (b := 10) (by decide) hpos
    apply isNearest_of_near hprecise
    rw [hscale, ← valueOf_mul steps, ← mul_assoc]
    refine mul_lt_mul_of_pos_right ?_ hunits
    rw [precision]
    norm_num at hplace ⊢
    linarith

end Magnitude

namespace Binary64.Decimal

open Magnitude

variable {steps : ℕ}

theorem leadingExponent_eq_log (h : 0 < steps) :
    leadingExponent steps = Int.log 10 (valueOf steps) := by
  have hpos := valueOf_pos h
  have hsteps : (0 : ℚ) < steps := by exact_mod_cast h
  have hunit : (0 : ℚ) < stepsPerUnit := by exact_mod_cast stepsPerUnit_pos
  suffices hbounds : (10 : ℚ) ^ leadingExponent steps ≤ valueOf steps ∧
      valueOf steps < 10 ^ (leadingExponent steps + 1) by
    have hlow := (Int.zpow_le_iff_le_log (b := 10) (by decide) hpos).mp (by exact_mod_cast hbounds.1)
    have hhigh := (Int.lt_zpow_iff_log_lt (b := 10) (by decide) hpos).mp (by exact_mod_cast hbounds.2)
    omega
  rw [valueOf, leadingExponent]
  split_ifs with hwhole
  · obtain ⟨k, hk, hlow, hhigh⟩ := exists_digitCount_eq (Nat.div_pos hwhole stepsPerUnit_pos)
    rw [Nat.le_div_iff_mul_le stepsPerUnit_pos] at hlow
    rw [Nat.div_lt_iff_lt_mul stepsPerUnit_pos] at hhigh
    rw [hk, Nat.cast_add, Nat.cast_one, add_sub_cancel_right, le_div_iff₀ hunit, div_lt_iff₀ hunit]
    exact ⟨by exact_mod_cast hlow, by exact_mod_cast hhigh⟩
  · -- The value is less than one, so its inverse is counted.
    have hmany : 0 < (stepsPerUnit - 1) / steps := Nat.div_pos (by omega) h
    obtain ⟨k, hk, hlow, hhigh⟩ := exists_digitCount_eq hmany
    rw [Nat.le_div_iff_mul_le h] at hlow
    rw [Nat.div_lt_iff_lt_mul h] at hhigh
    have hlow' : 10 ^ k * steps < stepsPerUnit := by omega
    have hhigh' : stepsPerUnit ≤ 10 ^ (k + 1) * steps := by omega
    have hcast : (10 : ℚ) ^ k * steps < stepsPerUnit := by exact_mod_cast hlow'
    have hcast' : (stepsPerUnit : ℚ) ≤ 10 ^ (k + 1) * steps := by exact_mod_cast hhigh'
    have hnext : -((k + 1 : ℕ) : ℤ) + 1 = -(k : ℤ) := by omega
    rw [hk, hnext, zpow_neg, zpow_neg, zpow_natCast, zpow_natCast, inv_eq_one_div, inv_eq_one_div,
      div_le_div_iff₀ (by positivity) hunit, div_lt_div_iff₀ hunit (by positivity)]
    constructor <;> linarith

/-- The format lies between `10⁻³²⁴` and `10³⁰⁹`. -/
theorem leadingExponent_bounds (hpos : 0 < steps) (hlimit : steps < limit) :
    -324 ≤ leadingExponent steps ∧ leadingExponent steps < 309 := by
  have hvalue := valueOf_pos hpos
  have hunit : (0 : ℚ) < stepsPerUnit := by exact_mod_cast stepsPerUnit_pos
  have hsmall : stepsPerUnit ≤ steps * 10 ^ 324 := by
    have hpow : stepsPerUnit ≤ 10 ^ 324 := by decide +kernel
    exact hpow.trans (Nat.le_mul_of_pos_left _ hpos)
  have hlarge : steps < 10 ^ 309 * stepsPerUnit := by
    have hpow : limit ≤ 10 ^ 309 * stepsPerUnit := by decide +kernel
    exact hlimit.trans_le hpow
  rw [leadingExponent_eq_log hpos]
  constructor
  · rw [← Int.zpow_le_iff_le_log (b := 10) (by decide) hvalue, valueOf, le_div_iff₀ hunit, zpow_neg,
      inv_mul_le_iff₀ (by positivity), mul_comm]
    exact_mod_cast hsmall
  · rw [← Int.lt_zpow_iff_log_lt (b := 10) (by decide) hvalue, valueOf, div_lt_iff₀ hunit]
    exact_mod_cast hlarge

theorem significant_bounds (digits : ℕ) (h : steps < limit) :
    -324 ≤ (significant digits steps).2 ∧ (significant digits steps).2 ≤ 309 := by
  unfold significant
  split_ifs with hzero
  · decide
  · have hleading := leadingExponent_bounds (Nat.pos_of_ne_zero hzero) h
    dsimp only
    split_ifs
    · show _ ≤ leadingExponent steps + 1 ∧ leadingExponent steps + 1 ≤ _
      omega
    · show _ ≤ leadingExponent steps ∧ leadingExponent steps ≤ _
      omega

theorem isHalfEven_scaled (steps : ℕ) (places : ℤ) :
    IsHalfEven (valueOf steps * 10 ^ places) (scaled steps places) := by
  have hround := isHalfEven_roundDiv (steps * 10 ^ places.toNat)
    (Nat.mul_pos stepsPerUnit_pos (Nat.pow_pos (n := (-places).toNat) (show 0 < 10 by decide)))
  push_cast at hround
  rwa [mul_div_mul_comm, ← ten_zpow_eq] at hround

theorem isRounding_significant {digits : ℕ} (hdigits : 0 < digits) (steps : ℕ) :
    IsRounding digits (valueOf steps)
      ((significant digits steps).1 * 10 ^ ((significant digits steps).2 + 1 - digits)) := by
  by_cases hzero : steps = 0
  · subst hzero
    rw [valueOf_zero, isRounding_zero_iff, significant, if_pos rfl, Nat.cast_zero, zero_mul]
  · have hlog := leadingExponent_eq_log (Nat.pos_of_ne_zero hzero)
    have hplace : lastPlace digits (valueOf steps) = leadingExponent steps + 1 - digits := by
      rw [lastPlace, hlog]
    have hscaled := isHalfEven_scaled steps (digits - 1 - leadingExponent steps)
    have hunit : valueOf steps * 10 ^ (digits - 1 - leadingExponent steps) =
        valueOf steps / 10 ^ lastPlace digits (valueOf steps) := by
      rw [div_eq_mul_inv, ← zpow_neg, hplace]
      congr 2
      ring
    rw [hunit] at hscaled
    refine ⟨_, hscaled, ?_⟩
    rw [significant, if_neg hzero]
    dsimp only
    split_ifs with hup
    · -- Ten to the count of digits, which is one with the place of a digit more.
      rw [hup, hplace]
      push_cast
      rw [← zpow_natCast, ← zpow_natCast, ← zpow_add₀ (by norm_num), ← zpow_add₀ (by norm_num)]
      congr 1
      omega
    · rw [hplace]

end Binary64.Decimal

end Metrology
