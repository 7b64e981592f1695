import Mathlib
import Metrology.Proofs.Binary64.Whole

/-!
# Metrology.Proofs.Binary64.Order -- comparing binary64 numbers

The comparisons look at the places of two numbers on the extended line and at nothing else. So of
less, equal and greater exactly one holds when both numbers have a place, and none when one of them
is NaN (`count_order`). The two zeros have one place, so they are equal.

Closeness of exponents is no such comparison: it goes through a difference that is rounded, or is no
number. But the two differences of a pair round to the same magnitude (`abs_sub_comm`), so it is
symmetric (`close_comm`), for any numbers.
-/

namespace Metrology

namespace Binary64

/-! ## Differences either way -/

theorem abs_ofSignedSteps (zeroSign : Bool) (z : Int) :
    (ofSignedSteps zeroSign z).abs = ofRatio false z.natAbs 1 := by
  unfold ofSignedSteps ofRatio
  split <;> rfl

/-- The two differences of a pair of numbers differ at most in their sign. -/
theorem abs_sub_comm (x y : Binary64) : (x - y).abs = (y - x).abs := by
  cases x with
  | nan s => cases y <;> rfl
  | infinite s =>
    cases y with
    | nan t => rfl
    | infinite t => cases s <;> cases t <;> rfl
    | finite t n => rfl
  | finite s m =>
    cases y with
    | nan t => rfl
    | infinite t => rfl
    | finite t n =>
      show (ofSignedSteps (s && !t) (signedSteps s m + signedSteps (!t) n)).abs =
        (ofSignedSteps (t && !s) (signedSteps t n + signedSteps (!s) m)).abs
      rw [abs_ofSignedSteps, abs_ofSignedSteps, signedSteps_neg, signedSteps_neg, ← Int.natAbs_neg]
      congr 2
      ring

theorem close_comm (x y : Binary64) : Exponent.close x y = Exponent.close y x := by
  unfold Exponent.close
  rw [abs_sub_comm]

/-! ## The order of places -/

theorem place?_eq_none_iff {x : Binary64} : x.place? = none ↔ x.isNaN = true := by
  cases x <;> simp [place?, isNaN]

theorem exists_place {x : Binary64} (h : x.isNaN = false) : ∃ p, x.place? = some p := by
  apply Option.ne_none_iff_exists'.mp
  rw [Ne, place?_eq_none_iff, h]
  exact Bool.false_ne_true

theorem equals_comm (x y : Binary64) : x.equals y = y.equals x := by
  unfold equals related
  cases x.place? <;> cases y.place? <;> simp [eq_comm]

theorem lessEqual_eq_or (x y : Binary64) : x.lessEqual y = (x.less y || x.equals y) := by
  unfold lessEqual less equals related
  cases x.place? <;> cases y.place? <;> simp [le_iff_lt_or_eq]

/-- Of less, equal and greater exactly one holds; with NaN none does. -/
theorem count_order (x y : Binary64) :
    [x.less y, x.equals y, y.less x].count true = if x.isNaN || y.isNaN then 0 else 1 := by
  unfold less equals related
  cases hx : x.isNaN with
  | true =>
    rw [place?_eq_none_iff.mpr hx]
    cases y.place? <;> rfl
  | false =>
    cases hy : y.isNaN with
    | true =>
      rw [place?_eq_none_iff.mpr hy]
      cases x.place? <;> rfl
    | false =>
      obtain ⟨p, hp⟩ := exists_place hx
      obtain ⟨q, hq⟩ := exists_place hy
      rw [hp, hq]
      rcases lt_trichotomy p q with h | rfl | h
      · simp [h, h.ne, h.not_gt]
      · simp
      · simp [h, h.ne', h.not_gt]

end Binary64

end Metrology
