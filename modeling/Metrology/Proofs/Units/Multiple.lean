import Mathlib
import Metrology.Proofs.Units.Cancellation

/-!
# Metrology.Proofs.Units.Multiple -- powers of normal units

A power of a unit scales every exponent at once, that of the marker too, and tidies what comes out.
A product scales nothing: it combines the unit with what there is so far, again and again, and
tidies every time. For whole exponents that stay exact both come to the same list of terms, which is
given here directly: `multiple n` takes each base exponent `n` times and leaves labels, order and
markers alone.

That nothing is dropped on the way, and no marker comes or goes, is one fact: a multiple of a normal
unit is normal (`MultipliesExactly.normal_multiple`). Tidying sees of a unit its labels and its
vector, and those of a power are those of the multiple (`MultipliesExactly.tidy_scale`); so are
those of a multiple times the unit once more (`MultipliesExactly.tidy_combine`), which is the step
from `n` to `n + 1`.
-/

namespace Metrology

namespace Term

/-- The term with its exponent, a whole number, taken `n` times; a marker as it is. -/
def times (n : Nat) (t : Term) : Term :=
  if t.isReciprocal then t else { t with exponent := Binary64.ofInt (n * t.exponent.toInt) }

theorem times_of_isReciprocal (n : Nat) {t : Term} (h : t.isReciprocal = true) : t.times n = t :=
  if_pos h

theorem exponent_times (n : Nat) {t : Term} (h : t.dimension ≠ .reciprocal) :
    (t.times n).exponent = Binary64.ofInt (n * t.exponent.toInt) := by
  rw [times, if_neg fun hr => h ((isReciprocal_iff t).mp hr)]

theorem label_times (n : Nat) (t : Term) : (t.times n).label = t.label := by
  rw [times]
  by_cases hr : t.isReciprocal = true
  · rw [if_pos hr]
  · rw [if_neg hr, label, label]

theorem dimension_times (n : Nat) (t : Term) : (t.times n).dimension = t.dimension :=
  (Prod.mk.inj (label_times n t)).1

theorem isReciprocal_times (n : Nat) (t : Term) : (t.times n).isReciprocal = t.isReciprocal := by
  rw [isReciprocal, isReciprocal, dimension_times]

end Term

namespace Units

open Binary64

/-- The units with every base exponent, a whole number, taken `n` times. -/
def multiple (n : Nat) (units : Units) : Units := units.map (Term.times n)

/-- Normal units with whole base exponents that stay, taken `n` times, in the range where whole
numbers are exact. The exponent of the marker takes no part. -/
structure MultipliesExactly (n : Nat) (units : Units) : Prop where
  normal : units.Normal
  whole : ∀ t ∈ units, t.dimension ≠ .reciprocal → t.exponent.IsWhole
  small : ∀ t ∈ units, t.dimension ≠ .reciprocal → (n * t.exponent.toInt).natAbs ≤ 2 ^ 53

theorem map_label_multiple (n : Nat) (units : Units) :
    (multiple n units).map Term.label = units.map Term.label := by
  rw [multiple, List.map_map]
  exact List.map_congr_left fun t _ => t.label_times n

theorem map_dimension_multiple (n : Nat) (units : Units) :
    (multiple n units).map Term.dimension = units.map Term.dimension := by
  rw [multiple, List.map_map]
  exact List.map_congr_left fun t _ => t.dimension_times n

/-- Markers are left alone. -/
theorem filter_isReciprocal_multiple (n : Nat) (units : Units) :
    (multiple n units).filter Term.isReciprocal = units.filter Term.isReciprocal := by
  have hkept : Term.isReciprocal ∘ Term.times n = Term.isReciprocal :=
    funext fun t => t.isReciprocal_times n
  rw [multiple, List.filter_map, hkept]
  refine (List.map_congr_left fun t ht => ?_).trans (List.map_id _)
  exact Term.times_of_isReciprocal n (List.mem_filter.mp ht).2

namespace MultipliesExactly

variable {n k : Nat} {units : Units}

theorem mono (h : MultipliesExactly n units) (hk : k ≤ n) : MultipliesExactly k units where
  normal := h.normal
  whole := h.whole
  small := by
    intro t ht hd
    refine Nat.le_trans ?_ (h.small t ht hd)
    rw [Int.natAbs_mul, Int.natAbs_mul, Int.natAbs_natCast, Int.natAbs_natCast]
    exact Nat.mul_le_mul_right _ hk

/-- What is present in a normal unit is not zero. -/
theorem toInt_ne_zero (h : MultipliesExactly n units) {t : Term} (ht : t ∈ units)
    (hd : t.dimension ≠ .reciprocal) : t.exponent.toInt ≠ 0 := by
  have hv : Exponent.vanishes t.exponent = false :=
    h.normal.present t ht ((Term.isReciprocal_eq_false_iff t).mpr hd)
  rw [(h.whole t ht hd).vanishes_eq] at hv
  exact of_decide_eq_false hv

theorem carries (h : MultipliesExactly n units) {d : Dimension} (hd : d ≠ .reciprocal) :
    units.Carries d (units.order d) :=
  carries_order h.normal.distinct fun t ht htd => h.whole t ht (htd ▸ hd)

theorem natAbs_order_le (h : MultipliesExactly n units) {d : Dimension} (hd : d ≠ .reciprocal) :
    (n * units.order d).natAbs ≤ 2 ^ 53 := by
  by_cases hmem : d ∈ units.map Term.dimension
  · obtain ⟨t, ht, rfl⟩ := List.mem_map.mp hmem
    rw [order_of_mem h.normal.distinct ht]
    exact h.small t ht hd
  · rw [order_of_notMem hmem, Int.mul_zero]
    exact Nat.zero_le _

theorem carries_multiple (h : MultipliesExactly n units) {d : Dimension} (hd : d ≠ .reciprocal) :
    (multiple n units).Carries d (n * units.order d) where
  holds := by
    rintro s hs rfl
    obtain ⟨t, ht, rfl⟩ := List.mem_map.mp hs
    rw [Term.dimension_times] at hd ⊢
    rw [Term.exponent_times n hd, order_of_mem h.normal.distinct ht]
    exact holds_ofInt (h.small t ht hd)
  absent := by
    intro hmem
    rw [map_dimension_multiple] at hmem
    rw [order_of_notMem hmem, Int.mul_zero]

/-- A multiple of a normal unit is normal: no exponent comes to zero, and none changes its sign, so
the marker is needed as much as before. -/
theorem normal_multiple (h : MultipliesExactly n units) (hn : 0 < n) :
    (multiple n units).Normal where
  nonempty := by
    rw [multiple, Ne, List.map_eq_nil_iff]
    exact h.normal.nonempty
  distinct := by
    rw [map_dimension_multiple]
    exact h.normal.distinct
  present := by
    intro s hs hr
    obtain ⟨t, ht, rfl⟩ := List.mem_map.mp hs
    rw [Term.isReciprocal_times, Term.isReciprocal_eq_false_iff] at hr
    have hne : (n : Int) * t.exponent.toInt ≠ 0 :=
      mul_ne_zero (by omega) (h.toInt_ne_zero ht hr)
    rw [Term.vanishes, Term.exponent_times n hr, (holds_ofInt (h.small t ht hr)).vanishes_eq]
    exact decide_eq_false hne
  markers := by
    have hn' : (0 : Int) < n := by exact_mod_cast hn
    have hnumerator :
        (multiple n units).any Term.inNumerator = true ↔ units.any Term.inNumerator = true := by
      rw [any_inNumerator_iff fun _ hd => h.carries_multiple hd,
        any_inNumerator_iff fun _ hd => h.carries hd]
      simp only [mul_pos_iff_of_pos_left hn']
    rw [filter_isReciprocal_multiple, h.normal.markers]
    simp only [hnumerator]

/-- Once is the unit itself. -/
theorem multiple_one (h : MultipliesExactly 1 units) : multiple 1 units = units := by
  refine (List.map_congr_left fun t ht => ?_).trans (List.map_id units)
  rw [id, Term.times]
  by_cases hr : t.isReciprocal = true
  · rw [if_pos hr]
  · have hd : t.dimension ≠ .reciprocal := fun hd => hr ((Term.isReciprocal_iff t).mpr hd)
    have hexponent : t.exponent = ofInt t.exponent.toInt :=
      (h.whole t ht hd).eq_ofInt (h.toInt_ne_zero ht hd)
    rw [if_neg hr, Nat.cast_one, Int.one_mul, ← hexponent]

/-- A power: all exponents scaled at once. The factor is exact wherever there is something for it to
scale, as what it scales is at least one. -/
theorem tidy_scale (h : MultipliesExactly n units) (hn : 0 < n) :
    tidy (scale units (ofInt n)) = multiple n units := by
  rw [← tidy_of_normal (h.normal_multiple hn)]
  apply tidy_eq_of_holds (v := fun d => n * units.order d)
  · rw [map_label_multiple, scale, List.map_map]
    rfl
  · intro s hs hd
    obtain ⟨t, ht, rfl⟩ := List.mem_map.mp hs
    have hfactor : (ofInt n).Holds n := by
      apply holds_ofInt
      have hsmall := h.small t ht hd
      rw [Int.natAbs_mul] at hsmall
      exact Nat.le_trans (Nat.le_mul_of_pos_right _
        (Int.natAbs_pos.mpr (h.toInt_ne_zero ht hd))) hsmall
    have hproduct := (h.whole t ht hd).mul hfactor (Int.mul_comm n _ ▸ h.small t ht hd)
    rw [Int.mul_comm] at hproduct
    show (t.exponent * ofInt n).Holds (n * units.order t.dimension)
    rw [order_of_mem h.normal.distinct ht]
    exact hproduct
  · intro s hs hd
    exact (h.carries_multiple hd).holds s hs rfl

/-- A product: a multiple combined with the unit once more. The unit has no dimension that the
multiple does not have, so nothing is put at the end. -/
theorem tidy_combine (h : MultipliesExactly (n + 1) units) (hn : 0 < n) :
    tidy (combine (multiple n units) units 1) = multiple (n + 1) units := by
  have hlast : MultipliesExactly n units := h.mono (Nat.le_succ n)
  have hnodup : ((multiple n units).map Term.dimension).Nodup := (hlast.normal_multiple hn).distinct
  rw [← tidy_of_normal (h.normal_multiple n.succ_pos)]
  apply tidy_eq_of_holds (v := fun d => (n + 1 : Nat) * units.order d)
  · rw [map_label_combine_of_subset 1 hnodup, map_label_multiple, map_label_multiple]
    intro t ht
    rw [collect_of_nodup h.normal.distinct] at ht
    rw [map_dimension_multiple]
    exact List.mem_map_of_mem ht
  · intro s hs hd
    have hleft :
        (collect (multiple n units)).Carries s.dimension (n * units.order s.dimension) := by
      rw [collect_of_nodup hnodup]
      exact hlast.carries_multiple hd
    have hright : (collect units).Carries s.dimension (units.order s.dimension) := by
      rw [collect_of_nodup h.normal.distinct]
      exact h.carries hd
    have honce := (h.mono n.succ_pos).natAbs_order_le hd
    have hsum := h.natAbs_order_le hd
    rw [Nat.cast_succ, add_mul] at hsum ⊢
    exact (carries_combine hleft hright (by decide) honce hsum).holds s hs rfl
  · intro s hs hd
    exact (h.carries_multiple hd).holds s hs rfl

end MultipliesExactly

end Units

end Metrology
