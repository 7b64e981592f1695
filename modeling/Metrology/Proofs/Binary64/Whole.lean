import Mathlib
import Metrology.Term

/-!
# Metrology.Proofs.Binary64.Whole -- whole numbers among the binary64 numbers

`x.Holds z` says that the number `x` is the whole number `z`; the two zeros both hold zero. A count
of steps that the format has is kept by rounding (`nearest_mul`), so sums, differences and products
of whole numbers are exact as long as the result stays within `2⁵³`: `Holds.add`, `Holds.neg`,
`Holds.mul`. Within that bound `ofInt` holds what it is given (`holds_ofInt`), and a number other
than zero that holds `z` is `ofInt z` (`Holds.eq_ofInt`).

On whole numbers the tolerance of exponents does not matter. One counts as zero exactly when it is
zero (`Holds.vanishes_eq`), and two are close exactly when they are equal (`Holds.close_eq`),
however large they are: a difference that is not zero is at least one, also after rounding.
-/

namespace Metrology

/- A power of naturals is the core one, whatever else is imported beside this module. -/
attribute [local instance (high)] instPowNat

namespace Magnitude

/-! ## Counts of steps that rounding keeps -/

theorem stepsPerUnit_pos : 0 < stepsPerUnit := by
  unfold stepsPerUnit
  exact Nat.pow_pos (by decide)

/-- A quotient that is a count of steps of the format is kept. -/
theorem nearest_mul {k d : Nat} (hd : 0 < d) (h : Representable k) : nearest (k * d) d = k := by
  obtain ⟨q, hq⟩ := h.2
  have hgap : 0 < gap k := Nat.pow_pos (by decide)
  have hk : k * d = q * (d * gap k) := by
    calc k * d = gap k * q * d := by rw [← hq]
      _ = q * (d * gap k) := by ring
  unfold nearest
  rw [Nat.mul_div_cancel k hd, hk, roundDiv_mul_right q (Nat.mul_pos hd hgap), Nat.mul_comm, ← hq]

/-- Whole numbers up to `2⁵³` are in the format. -/
theorem representable_whole {n : Nat} (h : n ≤ 2 ^ precision) :
    Representable (n * stepsPerUnit) := by
  unfold stepsPerUnit
  apply representable_mul_pow h
  unfold limit
  calc n * 2 ^ stepExponent ≤ 2 ^ precision * 2 ^ stepExponent := Nat.mul_le_mul_right _ h
    _ = 2 ^ (precision + stepExponent) := (Nat.pow_add 2 _ _).symm
    _ < 2 ^ limitExponent := Nat.pow_lt_pow_right (by decide) (by decide)

/-- Rounding does not lead below a power of two. -/
theorem two_pow_le_nearest {k n : Nat} (h : 2 ^ k ≤ n) : 2 ^ k ≤ nearest n 1 := by
  have hn : n ≠ 0 := Nat.ne_of_gt (Nat.lt_of_lt_of_le (Nat.pow_pos (by decide)) h)
  have hk : k ≤ n.log2 := (Nat.le_log2 hn).mpr h
  have hbits : 1 ≤ precision := by decide
  -- The leading power of two is a multiple of the gap, so rounding does not pass it.
  have hdvd : gap n ∣ 2 ^ n.log2 := Nat.pow_dvd_pow 2 (by omega)
  unfold nearest
  rw [Nat.div_one, Nat.one_mul]
  calc 2 ^ k ≤ 2 ^ n.log2 := Nat.pow_le_pow_right (by decide) hk
    _ = 2 ^ n.log2 / gap n * gap n := (Nat.div_mul_cancel hdvd).symm
    _ ≤ n / gap n * gap n :=
      Nat.mul_le_mul_right _ (Nat.div_le_div_right (Nat.log2_self_le hn))
    _ ≤ roundDiv n (gap n) * gap n := Nat.mul_le_mul_right _ (div_le_roundDiv n (gap n))

/-- What is one or more does not round to less than one. -/
theorem stepsPerUnit_le_nearest {n : Nat} (h : stepsPerUnit ≤ n) : stepsPerUnit ≤ nearest n 1 := by
  unfold stepsPerUnit at h ⊢
  exact two_pow_le_nearest h

end Magnitude

namespace Binary64

open Magnitude

/-! ## Holding a whole number -/

/-- Whether a number is finite and equals a whole number. -/
def Holds : Binary64 → Int → Prop
  | .finite s m, z => signedSteps s m = z * stepsPerUnit
  | _, _ => False

instance (x : Binary64) (z : Int) : Decidable (x.Holds z) :=
  match x with
  | .finite s m => inferInstanceAs (Decidable (signedSteps s m = z * stepsPerUnit))
  | .nan _ => .isFalse id
  | .infinite _ => .isFalse id

/-- Whether a number is a whole number. -/
def IsWhole (x : Binary64) : Prop := x.Holds x.toInt

instance (x : Binary64) : Decidable x.IsWhole := inferInstanceAs (Decidable (x.Holds x.toInt))

theorem natAbs_signedSteps (s : Bool) (m : Magnitude) : (signedSteps s m).natAbs = m.steps := by
  cases s <;> simp [signedSteps]

theorem mul_stepsPerUnit_neg_iff (z : Int) : z * (stepsPerUnit : Int) < 0 ↔ z < 0 := by
  have hS : (0 : Int) < stepsPerUnit := by exact_mod_cast stepsPerUnit_pos
  exact mul_neg_iff.trans (by omega)

theorem natAbs_mul_stepsPerUnit (z : Int) :
    (z * (stepsPerUnit : Int)).natAbs = z.natAbs * stepsPerUnit := by
  rw [Int.natAbs_mul, Int.natAbs_natCast]

theorem signedSteps_eq_mul {s : Bool} {m : Magnitude} {z : Int}
    (h : signedSteps s m = z * stepsPerUnit) : m.steps = z.natAbs * stepsPerUnit := by
  rw [← natAbs_signedSteps s m, h, natAbs_mul_stepsPerUnit]

/-- The sign bit of a number that holds a positive or negative whole number. -/
theorem sign_of_signedSteps {s : Bool} {m : Magnitude} {z : Int}
    (h : signedSteps s m = z * stepsPerUnit) (hz : z ≠ 0) : s = decide (z < 0) := by
  have hS : (0 : Int) < stepsPerUnit := by exact_mod_cast stepsPerUnit_pos
  cases s with
  | false =>
    have hnn : 0 ≤ z * (stepsPerUnit : Int) := by
      rw [← h]
      exact Int.natCast_nonneg _
    have hz' : ¬ z < 0 := not_lt.mpr (nonneg_of_mul_nonneg_left hnn hS)
    simp [hz']
  | true =>
    have hnp : z * (stepsPerUnit : Int) ≤ 0 := by
      rw [← h]
      simp [signedSteps]
    have hz' : z < 0 := lt_of_le_of_ne (nonpos_of_mul_nonpos_left hnp hS) hz
    simp [hz']

/-- The magnitude of a count with the sign of that count, either one for zero. -/
theorem signedSteps_of_sign {s : Bool} {m : Magnitude} {k : Int} (hm : m.steps = k.natAbs)
    (hs : k ≠ 0 → s = decide (k < 0)) : signedSteps s m = k := by
  unfold signedSteps
  rw [hm]
  rcases lt_trichotomy k 0 with hk | rfl | hk
  · rw [hs hk.ne, decide_eq_true hk, if_pos rfl, Int.ofNat_natAbs_of_nonpos hk.le, neg_neg]
  · rw [Int.natAbs_zero, Nat.cast_zero, neg_zero, ite_self]
  · rw [hs hk.ne', decide_eq_false hk.not_gt, if_neg Bool.false_ne_true,
      Int.natAbs_of_nonneg hk.le]

theorem holds_finite {s : Bool} {n : Nat} {z : Int} (h : Representable n)
    (hn : n = z.natAbs * stepsPerUnit) (hs : z ≠ 0 → s = decide (z < 0)) :
    Holds (.finite s ⟨n, h⟩) z := by
  refine signedSteps_of_sign (m := ⟨n, h⟩) ?_ fun hne => ?_
  · rw [natAbs_mul_stepsPerUnit]
    exact hn
  · rw [hs (left_ne_zero_of_mul hne), decide_eq_decide.mpr (mul_stepsPerUnit_neg_iff z)]

/-- A number that holds a whole number is finite. -/
theorem Holds.exists_finite {x : Binary64} {z : Int} (h : x.Holds z) :
    ∃ s m, x = .finite s m ∧ signedSteps s m = z * stepsPerUnit := by
  cases x with
  | nan s => exact h.elim
  | infinite s => exact h.elim
  | finite s m => exact ⟨s, m, rfl, h⟩

theorem Holds.unique {x : Binary64} {y z : Int} (hy : x.Holds y) (hz : x.Holds z) : y = z := by
  obtain ⟨s, m, rfl, hy⟩ := hy.exists_finite
  have hS : (stepsPerUnit : Int) ≠ 0 := by exact_mod_cast stepsPerUnit_pos.ne'
  exact mul_right_cancel₀ hS (hy.symm.trans hz)

theorem Holds.toInt_eq {x : Binary64} {z : Int} (h : x.Holds z) : x.toInt = z := by
  obtain ⟨s, m, rfl, hm⟩ := h.exists_finite
  have hquot : m.steps / stepsPerUnit = z.natAbs := by
    rw [signedSteps_eq_mul hm, Nat.mul_div_cancel _ stepsPerUnit_pos]
  by_cases hz : z = 0
  · subst hz
    cases s <;> simp [toInt, hquot]
  · rw [toInt, hquot, sign_of_signedSteps hm hz]
    by_cases hneg : z < 0
    · simp only [hneg, decide_true, if_true]
      omega
    · simp only [hneg, decide_false, Bool.false_eq_true, if_false]
      omega

theorem Holds.isWhole {x : Binary64} {z : Int} (h : x.Holds z) : x.IsWhole := by
  rw [IsWhole, h.toInt_eq]
  exact h

/-! ## Rounding keeps whole numbers -/

theorem ofRatio_mul (s : Bool) {k d : Nat} (hd : 0 < d) (h : Representable k) :
    ofRatio s (k * d) d = .finite s ⟨k, h⟩ := by
  have hk : nearest (k * d) d = k := nearest_mul hd h
  unfold ofRatio
  simp only [hk, dif_pos h.1]

theorem ofRatio_one (s : Bool) {k : Nat} (h : Representable k) :
    ofRatio s k 1 = .finite s ⟨k, h⟩ := by
  rw [← ofRatio_mul s Nat.one_pos h, Nat.mul_one]

/-- Rounding to a whole number keeps one. -/
theorem Holds.roundAway_eq {x : Binary64} {z : Int} (h : x.Holds z) : x.roundAway = x := by
  obtain ⟨s, m, rfl, hm⟩ := h.exists_finite
  have hsteps := signedSteps_eq_mul hm
  have hrest : m.steps % stepsPerUnit = 0 := by rw [hsteps, Nat.mul_mod_left]
  have hquot : m.steps / stepsPerUnit * stepsPerUnit = m.steps :=
    Nat.div_mul_cancel (Nat.dvd_of_mod_eq_zero hrest)
  have hbelow : ¬ stepsPerUnit ≤ 2 * 0 := Nat.not_le.mpr stepsPerUnit_pos
  rw [roundAway, toWhole, hrest, if_neg hbelow, hquot]
  exact ofRatio_one s m.representable

/-- A count of steps that the format has is kept, with its sign. -/
theorem ofSignedSteps_eq_finite (zeroSign : Bool) {k : Int} (h : Representable k.natAbs) :
    ∃ s m, ofSignedSteps zeroSign k = .finite s m ∧ signedSteps s m = k := by
  refine ⟨if k = 0 then zeroSign else decide (k < 0), ⟨k.natAbs, h⟩, ?_, ?_⟩
  · rw [ofSignedSteps, ofRatio_one _ h]
  · exact signedSteps_of_sign rfl fun hk => if_neg hk

theorem holds_ofSignedSteps (zeroSign : Bool) {z : Int}
    (h : Representable (z.natAbs * stepsPerUnit)) :
    (ofSignedSteps zeroSign (z * stepsPerUnit)).Holds z := by
  rw [← natAbs_mul_stepsPerUnit] at h
  obtain ⟨s, m, heq, hm⟩ := ofSignedSteps_eq_finite zeroSign h
  rw [heq]
  exact hm

/-- A count of whole units, whose zero is positive, is rounded as `ofInt` rounds. -/
theorem ofSignedSteps_mul (z : Int) : ofSignedSteps false (z * stepsPerUnit) = ofInt z := by
  have hS : (0 : Int) < stepsPerUnit := by exact_mod_cast stepsPerUnit_pos
  unfold ofSignedSteps ofInt
  rw [natAbs_mul_stepsPerUnit]
  by_cases hz : z = 0
  · subst hz
    rw [Int.zero_mul, if_pos rfl, decide_eq_false (lt_irrefl 0)]
  · rw [if_neg (mul_ne_zero hz hS.ne'), decide_eq_decide.mpr (mul_stepsPerUnit_neg_iff z)]

/-- `ofInt` holds what it is given, if the format has it. -/
theorem holds_ofInt_of_representable {z : Int} (h : Representable (z.natAbs * stepsPerUnit)) :
    (ofInt z).Holds z := by
  unfold ofInt
  rw [ofRatio_one _ h]
  exact holds_finite h rfl fun _ => rfl

theorem holds_ofInt {z : Int} (h : z.natAbs ≤ 2 ^ precision) : (ofInt z).Holds z :=
  holds_ofInt_of_representable (representable_whole h)

theorem Holds.representable {x : Binary64} {z : Int} (h : x.Holds z) :
    Representable (z.natAbs * stepsPerUnit) := by
  obtain ⟨s, m, rfl, hm⟩ := h.exists_finite
  rw [← signedSteps_eq_mul hm]
  exact m.representable

/-- Other than zero, which has two signs, a whole number is held by one number only. -/
theorem Holds.eq_ofInt {x : Binary64} {z : Int} (h : x.Holds z) (hz : z ≠ 0) : x = ofInt z := by
  have hrep := h.representable
  obtain ⟨s, m, rfl, hm⟩ := h.exists_finite
  unfold ofInt
  rw [ofRatio_one _ hrep, sign_of_signedSteps hm hz]
  congr 1
  obtain ⟨steps, representable⟩ := m
  exact Magnitude.mk.injEq .. ▸ signedSteps_eq_mul hm

/-! ## Arithmetic on whole numbers -/

theorem signedSteps_neg (s : Bool) (m : Magnitude) : signedSteps (!s) m = -signedSteps s m := by
  cases s <;> simp [signedSteps]

theorem Holds.neg {x : Binary64} {z : Int} (h : x.Holds z) : (-x).Holds (-z) := by
  obtain ⟨s, m, rfl, hm⟩ := h.exists_finite
  show signedSteps (!s) m = -z * stepsPerUnit
  rw [signedSteps_neg, hm, neg_mul]

/-- Without its sign, a number holds the size of what it held. -/
theorem Holds.abs {x : Binary64} {z : Int} (h : x.Holds z) : x.abs.Holds z.natAbs := by
  obtain ⟨s, m, rfl, hm⟩ := h.exists_finite
  show (m.steps : Int) = (z.natAbs : Int) * stepsPerUnit
  rw [signedSteps_eq_mul hm, Nat.cast_mul]

/-- A sum of whole numbers is exact when the format has it. -/
theorem Holds.add_of_representable {x y : Binary64} {a b : Int} (hx : x.Holds a) (hy : y.Holds b)
    (h : Representable ((a + b).natAbs * stepsPerUnit)) : (x + y).Holds (a + b) := by
  obtain ⟨s, m, rfl, hm⟩ := hx.exists_finite
  obtain ⟨t, n, rfl, hn⟩ := hy.exists_finite
  show (ofSignedSteps (s && t) (signedSteps s m + signedSteps t n)).Holds (a + b)
  rw [hm, hn, ← add_mul]
  exact holds_ofSignedSteps _ h

theorem Holds.add {x y : Binary64} {a b : Int} (hx : x.Holds a) (hy : y.Holds b)
    (h : (a + b).natAbs ≤ 2 ^ precision) : (x + y).Holds (a + b) :=
  hx.add_of_representable hy (representable_whole h)

/-- The sign rule of products. -/
theorem decide_mul_neg {a b : Int} (ha : a ≠ 0) (hb : b ≠ 0) :
    decide (a * b < 0) = (decide (a < 0) ^^ decide (b < 0)) := by
  rcases lt_or_gt_of_ne ha with ha | ha <;> rcases lt_or_gt_of_ne hb with hb | hb
  · simp [ha, hb, (mul_pos_of_neg_of_neg ha hb).not_gt]
  · simp [ha, hb.not_gt, mul_neg_of_neg_of_pos ha hb]
  · simp [ha.not_gt, hb, mul_neg_of_pos_of_neg ha hb]
  · simp [ha.not_gt, hb.not_gt, (mul_pos ha hb).not_gt]

theorem Holds.mul {x y : Binary64} {a b : Int} (hx : x.Holds a) (hy : y.Holds b)
    (h : (a * b).natAbs ≤ 2 ^ precision) : (x * y).Holds (a * b) := by
  obtain ⟨s, m, rfl, hm⟩ := hx.exists_finite
  obtain ⟨t, n, rfl, hn⟩ := hy.exists_finite
  show (ofRatio (s ^^ t) (m.steps * n.steps) stepsPerUnit).Holds (a * b)
  have hprod : m.steps * n.steps = (a * b).natAbs * stepsPerUnit * stepsPerUnit := by
    rw [signedSteps_eq_mul hm, signedSteps_eq_mul hn, Int.natAbs_mul]
    ring
  rw [hprod, ofRatio_mul _ stepsPerUnit_pos (representable_whole h)]
  apply holds_finite _ rfl
  intro hz
  have ha : a ≠ 0 := left_ne_zero_of_mul hz
  have hb : b ≠ 0 := right_ne_zero_of_mul hz
  rw [sign_of_signedSteps hm ha, sign_of_signedSteps hn hb, decide_mul_neg ha hb]

/-! ## Adding to zero -/

theorem holds_zero : (0 : Binary64).Holds 0 := by decide +kernel

theorem holds_one : (1 : Binary64).Holds 1 := by decide +kernel

theorem zero_eq : (0 : Binary64) = .finite false ⟨0, by decide +kernel⟩ := by decide +kernel

/-- Adding to zero keeps the steps of a finite number, and makes its zero positive. -/
theorem zero_add_finite (s : Bool) (m : Magnitude) :
    0 + .finite s m = ofSignedSteps false (signedSteps s m) := by
  rw [zero_eq]
  show ofSignedSteps (false && s) (((0 : Nat) : Int) + signedSteps s m) = _
  rw [Bool.false_and, Nat.cast_zero, Int.zero_add]

theorem Holds.zero_add {x : Binary64} {z : Int} (h : x.Holds z) : 0 + x = ofInt z := by
  obtain ⟨s, m, rfl, hm⟩ := h.exists_finite
  rw [zero_add_finite, hm, ofSignedSteps_mul]

/-- A whole number added to one that `ofInt` gives is again what `ofInt` gives, a zero included. -/
theorem Holds.ofInt_add {x : Binary64} {y z : Int} (hx : x.Holds z) (hy : y.natAbs ≤ 2 ^ precision)
    (hsum : (y + z).natAbs ≤ 2 ^ precision) : ofInt y + x = ofInt (y + z) := by
  by_cases hzero : y + z = 0
  · by_cases hy0 : y = 0
    · subst hy0
      rw [Int.zero_add]
      exact hx.zero_add
    · obtain ⟨s, m, hs, hm⟩ := (holds_ofInt hy).exists_finite
      obtain ⟨t, n, rfl, hn⟩ := hx.exists_finite
      -- The summands differ in sign, so their exact zero is positive.
      have hsigns : (s && t) = false := by
        rw [sign_of_signedSteps hm hy0, sign_of_signedSteps hn (by omega), Bool.and_eq_false_iff]
        simp only [decide_eq_false_iff_not]
        omega
      rw [hs]
      show ofSignedSteps (s && t) (signedSteps s m + signedSteps t n) = ofInt (y + z)
      rw [hsigns, hm, hn, ← add_mul, ofSignedSteps_mul]
  · exact ((holds_ofInt hy).add hx hsum).eq_ofInt hzero

/-- Only a whole number gives a whole number when it is added to zero. -/
theorem holds_of_zero_add {x : Binary64} {z : Int} (h : (0 + x).Holds z) : x.Holds z := by
  cases x with
  | nan s =>
    rw [zero_eq] at h
    exact False.elim h
  | infinite s =>
    rw [zero_eq] at h
    exact False.elim h
  | finite s m =>
    have hrep : Representable (signedSteps s m).natAbs := by
      rw [natAbs_signedSteps]
      exact m.representable
    obtain ⟨t, n, heq, hn⟩ := ofSignedSteps_eq_finite false hrep
    rw [zero_add_finite, heq] at h
    exact hn.symm.trans h

/-! ## Order and closeness of whole numbers -/

theorem Holds.less_eq {x y : Binary64} {a b : Int} (hx : x.Holds a) (hy : y.Holds b) :
    x.less y = decide (a < b) := by
  obtain ⟨s, m, rfl, hm⟩ := hx.exists_finite
  obtain ⟨t, n, rfl, hn⟩ := hy.exists_finite
  have hS : (0 : Int) < stepsPerUnit := by exact_mod_cast stepsPerUnit_pos
  show decide (signedSteps s m < signedSteps t n) = decide (a < b)
  rw [hm, hn]
  exact decide_eq_decide.mpr (mul_lt_mul_iff_left₀ hS)

/-- The tolerance is a positive number of steps, and less than one. -/
theorem exists_tolerance :
    ∃ s m, Exponent.tolerance = .finite s m ∧ 0 < signedSteps s m ∧
      signedSteps s m < stepsPerUnit := by
  have hfinite : Exponent.tolerance.isFinite = true := by decide +kernel
  have hplace : Exponent.tolerance.place?.all
      (fun z => 0 < z ∧ z < (stepsPerUnit : Int)) = true := by
    decide +kernel
  generalize Exponent.tolerance = x at hfinite hplace
  cases x with
  | nan s => cases hfinite
  | infinite s => cases hfinite
  | finite s m => exact ⟨s, m, rfl, by simpa [place?] using hplace⟩

/-- What is at least one step of a unit away from zero does not count as zero. -/
theorem vanishes_eq_false {x : Binary64}
    (h : ∀ s m, x = .finite s m → stepsPerUnit ≤ m.steps) : Exponent.vanishes x = false := by
  obtain ⟨s, t, ht, _, hlt⟩ := exists_tolerance
  unfold Exponent.vanishes
  rw [ht]
  cases x with
  | nan s => rfl
  | infinite s' =>
    have hlim : signedSteps s t < limit := hlt.trans (by decide +kernel)
    exact decide_eq_false hlim.le.not_gt
  | finite s' m =>
    have hm : (stepsPerUnit : Int) ≤ m.steps := by exact_mod_cast h s' m rfl
    exact decide_eq_false (hlt.le.trans hm).not_gt

/-- A whole number counts as zero exactly when it is zero. -/
theorem Holds.vanishes_eq {x : Binary64} {z : Int} (h : x.Holds z) :
    Exponent.vanishes x = decide (z = 0) := by
  obtain ⟨s, m, rfl, hm⟩ := h.exists_finite
  have hsteps := signedSteps_eq_mul hm
  by_cases hz : z = 0
  · subst hz
    obtain ⟨t, n, hn, hpos, _⟩ := exists_tolerance
    rw [Int.natAbs_zero, Nat.zero_mul] at hsteps
    rw [Exponent.vanishes, hn]
    show decide ((m.steps : Int) < signedSteps t n) = true
    rw [hsteps]
    exact decide_eq_true hpos
  · rw [decide_eq_false hz]
    apply vanishes_eq_false
    intro s' m' h'
    cases h'
    rw [hsteps]
    exact Nat.le_mul_of_pos_left _ (Int.natAbs_pos.mpr hz)

/-- Only what is not a number is subtracted in another way than its negation is added. -/
theorem Holds.sub_eq_add_neg {y : Binary64} {b : Int} (hy : y.Holds b) (x : Binary64) :
    x - y = x + -y := by
  obtain ⟨t, n, rfl, _⟩ := hy.exists_finite
  rfl

/-- Two whole numbers count as equal exactly when they are. The difference of others is at least
one, and rounding does not take it below. -/
theorem Holds.close_eq {x y : Binary64} {a b : Int} (hx : x.Holds a) (hy : y.Holds b) :
    Exponent.close x y = decide (a = b) := by
  show Exponent.vanishes (x - y) = decide (a = b)
  rw [hy.sub_eq_add_neg]
  by_cases hab : a = b
  · -- An exact zero, whatever the size of the two numbers.
    subst hab
    have hzero : (x + -y).Holds (a + -a) :=
      hx.add_of_representable hy.neg (by rw [add_neg_cancel]; decide +kernel)
    rw [hzero.vanishes_eq, add_neg_cancel]
    simp
  · -- The sum can be beyond what is exact, so it is followed through the rounding.
    rw [decide_eq_false hab]
    obtain ⟨s, m, rfl, hm⟩ := hx.exists_finite
    obtain ⟨t, n, hn', hn⟩ := hy.neg.exists_finite
    rw [hn']
    apply vanishes_eq_false
    intro s' m' h'
    have hsum : ofSignedSteps (s && t) (signedSteps s m + signedSteps t n) = .finite s' m' := h'
    rw [hm, hn, ← add_mul, ofSignedSteps, ofRatio] at hsum
    have habs : stepsPerUnit ≤ ((a + -b) * (stepsPerUnit : Int)).natAbs := by
      rw [natAbs_mul_stepsPerUnit]
      exact Nat.le_mul_of_pos_left _ (Int.natAbs_pos.mpr (by omega))
    split at hsum
    · cases hsum
      exact stepsPerUnit_le_nearest habs
    · cases hsum

end Binary64

end Metrology
