import Metrology.Rounding

/-!
# Metrology.Binary64.Basic -- the binary64 numbers, exactly

A finite binary64 number is a sign and a magnitude, and every magnitude is a whole number of steps
of `2⁻¹⁰⁷⁴`. So all that is computed on such numbers here is computed on naturals and rounded once,
by `nearest`, to the magnitudes the format has: those below `2¹⁰²⁴` whose 53 leading bits hold all
of them. The two zeros differ, and so do the two NaNs, a positive and a negative one.

Main statements: rounding lands on magnitudes of the format (`representable_nearest`), and a
magnitude of at most 53 bits, shifted, is one of them (`representable_mul_pow`).
-/

namespace Metrology

/- A power of naturals is the core one, whatever else is imported beside this module. -/
attribute [local instance (high)] instPowNat

namespace Magnitude

/-- The count of bits of a significand. -/
def precision : Nat := 53

/-- A step is `2` to the power `-stepExponent`. -/
def stepExponent : Nat := 1074

/-- The number of steps in one. -/
def stepsPerUnit : Nat := 2 ^ stepExponent

/-- The power of two, counted in steps, at which the format ends. -/
def limitExponent : Nat := 1024 + stepExponent

/-- The number of steps in `2¹⁰²⁴`, the least power of two beyond the format. -/
def limit : Nat := 2 ^ limitExponent

theorem two_pow_le_limit {k : Nat} (h : k ≤ limitExponent) : 2 ^ k ≤ limit :=
  Nat.pow_le_pow_right (by decide) h

/-- The gap, in steps, between neighbouring magnitudes from the leading bit of `n` on. -/
def gap (n : Nat) : Nat := 2 ^ (n.log2 + 1 - precision)

/-- A count of steps that the format holds: below the limit, with nothing beyond the leading bits
that make up a significand. -/
def Representable (n : Nat) : Prop :=
  n < limit ∧ gap n ∣ n

instance (n : Nat) : Decidable (Representable n) :=
  inferInstanceAs (Decidable (_ ∧ _))

/-- A count of at most 53 bits, shifted, has nothing beyond its leading bits. -/
theorem gap_dvd_mul_pow {m k : Nat} (hm : m ≤ 2 ^ precision) : gap (m * 2 ^ k) ∣ m * 2 ^ k := by
  unfold gap
  by_cases h0 : m = 0
  · rw [h0, Nat.zero_mul]
    exact Nat.dvd_zero _
  have hpos : m * 2 ^ k ≠ 0 := Nat.mul_ne_zero h0 (Nat.ne_of_gt (Nat.pow_pos (by decide)))
  by_cases htop : m = 2 ^ precision
  · subst htop
    rw [← Nat.pow_add] at hpos ⊢
    have hlog : (2 ^ (precision + k)).log2 < precision + k + 1 :=
      (Nat.log2_lt hpos).2 (Nat.pow_lt_pow_right (by decide) (Nat.lt_succ_self _))
    have hbits : 1 ≤ precision := by decide
    exact Nat.pow_dvd_pow 2 (by omega)
  · have hlog : (m * 2 ^ k).log2 < precision + k := by
      rw [Nat.log2_lt hpos, Nat.pow_add]
      exact Nat.mul_lt_mul_of_pos_right (Nat.lt_of_le_of_ne hm htop) (Nat.pow_pos (by decide))
    exact Nat.dvd_mul_left_of_dvd (Nat.pow_dvd_pow 2 (by omega)) _

theorem representable_mul_pow {m k : Nat} (hm : m ≤ 2 ^ precision) (h : m * 2 ^ k < limit) :
    Representable (m * 2 ^ k) :=
  ⟨h, gap_dvd_mul_pow hm⟩

/-- The count of steps nearest to `n / d` among those with a significand, ties to even. -/
def nearest (n d : Nat) : Nat :=
  roundDiv n (d * gap (n / d)) * gap (n / d)

theorem div_gap_lt (q : Nat) : q / gap q < 2 ^ precision := by
  unfold gap
  rw [Nat.div_lt_iff_lt_mul (Nat.pow_pos (by decide)), ← Nat.pow_add]
  exact Nat.lt_of_lt_of_le Nat.lt_log2_self (Nat.pow_le_pow_right (by decide) (by omega))

theorem representable_nearest {n d : Nat} (h : nearest n d < limit) :
    Representable (nearest n d) := by
  refine representable_mul_pow ?_ h
  have hup := roundDiv_le_succ n (d * gap (n / d))
  rw [← Nat.div_div_eq_div_mul] at hup
  have hlt := div_gap_lt (n / d)
  omega

end Magnitude

/-- A magnitude of the format, counted in steps of `2⁻¹⁰⁷⁴`. -/
structure Magnitude where
  steps : Nat
  representable : Magnitude.Representable steps
deriving DecidableEq

/-- A binary64 number. `negative` is the sign bit, which a zero and a NaN have too. -/
inductive Binary64 where
  | nan (negative : Bool)
  | infinite (negative : Bool)
  | finite (negative : Bool) (magnitude : Magnitude)
deriving DecidableEq

namespace Binary64

open Magnitude

/-- The number of the given sign nearest to `n / d` steps; infinite when that is beyond the format.
-/
def ofRatio (negative : Bool) (n d : Nat) : Binary64 :=
  if h : nearest n d < limit then
    .finite negative ⟨nearest n d, representable_nearest h⟩
  else
    .infinite negative

/-- The zero of the given sign. -/
def zero (negative : Bool) : Binary64 := ofRatio negative 0 1

/-- The number nearest to a whole number; zero is positive. -/
def ofInt (z : Int) : Binary64 :=
  ofRatio (decide (z < 0)) (z.natAbs * stepsPerUnit) 1

/-- The number `digits · radix ^ exponent` in steps, as a quotient.

An exponent beyond `far` and the size of the digits is drawn in to that bound: for radix ten or two
and a `far` past the ends of the format the quotient still lies on the same side of its end, and no
power is formed that the digits do not justify. -/
def scaledRatio (radix far digits : Nat) (exponent : Int) : Nat × Nat :=
  let e := max (min exponent far) (-(far + digits.log2 : Int))
  (digits * radix ^ e.toNat * stepsPerUnit, radix ^ (-e).toNat)

/-- The number `digits · 10 ^ exponent` in steps, as a quotient. -/
def decimalRatio : Nat → Int → Nat × Nat := scaledRatio 10 400

/-- The number `digits · 2 ^ exponent` in steps, as a quotient. -/
def binaryRatio : Nat → Int → Nat × Nat := scaledRatio 2 1200

/-- The number nearest to `digits · 10 ^ exponent`. -/
def ofDecimal (negative : Bool) (digits : Nat) (exponent : Int) : Binary64 :=
  ofRatio negative (decimalRatio digits exponent).1 (decimalRatio digits exponent).2

instance : OfScientific Binary64 where
  ofScientific digits down places := ofDecimal false digits (if down then -places else places)

instance (n : Nat) : OfNat Binary64 n where
  ofNat := ofInt n

instance : Inhabited Binary64 := ⟨0⟩

/-! ## The interchange format -/

/-- The 64 bits of a number: sign, eleven bits of exponent, fifty-two of significand. Above the
subnormal numbers the leading bit of the significand is carried into the exponent. -/
def toBits : Binary64 → UInt64
  | .nan s => .ofNat (signBit s + 2047 <<< 52 + 1 <<< 51)
  | .infinite s => .ofNat (signBit s + 2047 <<< 52)
  | .finite s m =>
    let shift := m.steps.log2 - 52
    .ofNat (signBit s + shift <<< 52 + m.steps >>> shift)
where
  /-- The sign in its place. -/
  signBit (s : Bool) : Nat := (if s then 1 else 0) <<< 63

theorem shifted_lt_limit {m k : Nat} (hm : m < 2 ^ precision) (hk : k + precision ≤ limitExponent) :
    m * 2 ^ k < limit := by
  calc m * 2 ^ k < 2 ^ precision * 2 ^ k :=
        Nat.mul_lt_mul_of_pos_right hm (Nat.pow_pos (by decide))
    _ = 2 ^ (precision + k) := (Nat.pow_add 2 precision k).symm
    _ ≤ limit := two_pow_le_limit (by omega)

/-- The number that 64 bits stand for. -/
def ofBits (bits : UInt64) : Binary64 :=
  let n := bits.toNat
  let s := n.testBit 63
  let field := n >>> 52 % 2048
  let low := n % 1 <<< 52
  if hfield : field = 2047 then
    if low = 0 then .infinite s else .nan s
  else
    let significand := if field = 0 then low else 1 <<< 52 + low
    have hsig : significand < 2 ^ precision := by
      have hlow : low < 1 <<< 52 := Nat.mod_lt _ (by decide)
      have hone : 1 <<< 52 + 1 <<< 52 = 2 ^ precision := by decide
      simp only [significand]
      split <;> omega
    have hshift : field - 1 + precision ≤ limitExponent := by
      have hlt : field < 2048 := Nat.mod_lt _ (by decide)
      have hprecision : precision = 53 := rfl
      have hend : limitExponent = 2098 := rfl
      omega
    .finite s ⟨significand * 2 ^ (field - 1),
      representable_mul_pow (Nat.le_of_lt hsig) (shifted_lt_limit hsig hshift)⟩

end Binary64

-- These are numerals of a thousand bits and more; a proof reasons about them by their lemmas.
attribute [irreducible] Magnitude.stepsPerUnit Magnitude.limit

end Metrology
