/-!
# Metrology.Rounding -- quotients rounded to the nearest whole number

One rule of rounding serves the whole library: the nearest whole number, a tie going to the even
neighbour. Arithmetic on binary numbers, the reading of number texts and the writing of a number
with a fixed count of digits are all this rule applied to an exact quotient of naturals.

Main statements: an exact quotient is kept (`roundDiv_mul_right`), and the result is one of the two
whole numbers around the quotient (`div_le_roundDiv`, `roundDiv_le_succ`).
-/

namespace Metrology

/-- The quotient `n / d` rounded to the nearest whole number, a tie going to the even one. -/
def roundDiv (n d : Nat) : Nat :=
  if d < 2 * (n % d) ∨ (2 * (n % d) = d ∧ n / d % 2 = 1) then n / d + 1 else n / d

theorem div_le_roundDiv (n d : Nat) : n / d ≤ roundDiv n d := by
  unfold roundDiv
  split <;> omega

theorem roundDiv_le_succ (n d : Nat) : roundDiv n d ≤ n / d + 1 := by
  unfold roundDiv
  split <;> omega

/-- An exact quotient is kept. -/
theorem roundDiv_mul_right (q : Nat) {d : Nat} (h : 0 < d) : roundDiv (q * d) d = q := by
  have hm : q * d % d = 0 := Nat.mul_mod_left q d
  have hq : q * d / d = q := Nat.mul_div_cancel q h
  unfold roundDiv
  rw [hm, hq, if_neg]
  omega

/-- How many decimal digits `n` has; zero has none. -/
def digitCount (n : Nat) : Nat :=
  if n = 0 then 0 else digitCount (n / 10) + 1
termination_by n
decreasing_by omega

end Metrology
