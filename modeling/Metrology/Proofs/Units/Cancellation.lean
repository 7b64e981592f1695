import Mathlib
import Metrology.Proofs.Units.SameDimensions
import Metrology.Proofs.Units.Tidy

/-!
# Metrology.Proofs.Units.Cancellation -- dividing and multiplying back

Dividing `a` by `b` and multiplying by `b` again leaves the terms of `a` first, with their labels,
and after them a term for each dimension that only `b` has (`map_label_combine_cancel`). As long as
whole exponents stay exact, the vector comes back to that of `a` (`carries_combine_cancel`), so those
further terms are at zero, and tidying drops them. A marker that only `b` has stands among them, at
the end, where tidying would put one anyway.

What comes back is not just the same unit but the same terms, in their places and with their
prefixes. The exponents of markers take no part: they can be anything.
-/

namespace Metrology

namespace Units

open Binary64

theorem map_label_combine (a b : Units) (sign : Int) :
    (combine a b sign).map Term.label =
      (collect a).map Term.label ++
        ((collect b).filter fun t => !mentions (collect a) t.dimension).map Term.label := by
  rw [combine, List.map_append, List.map_map, List.map_map]
  rfl

/-- Combining with units that have no dimension of their own leaves the labels as they are. -/
theorem map_label_combine_of_subset {a b : Units} (sign : Int)
    (hnodup : (a.map Term.dimension).Nodup)
    (hsub : ∀ t ∈ collect b, t.dimension ∈ a.map Term.dimension) :
    (combine a b sign).map Term.label = a.map Term.label := by
  have hnone : (collect b).filter (fun t => !mentions a t.dimension) = [] := by
    rw [List.filter_eq_nil_iff]
    intro t ht hnew
    exact not_mentions_iff.mp hnew (hsub t ht)
  rw [map_label_combine, collect_of_nodup hnodup, hnone, List.map_nil, List.append_nil]

/-- The second time, the right units have no dimension of their own. -/
theorem map_label_combine_cancel (a b : Units) :
    (combine (combine a b (-1)) b 1).map Term.label =
      (collect a).map Term.label ++
        ((collect b).filter fun t => !mentions (collect a) t.dimension).map Term.label := by
  rw [map_label_combine_of_subset 1 (nodup_combine a b (-1)), map_label_combine]
  intro t ht
  exact mem_map_dimension_combine.mpr (.inr (List.mem_map_of_mem ht))

theorem carries_combine_cancel {a b : Units} {d : Dimension} {y z : Int}
    (ha : (collect a).Carries d y) (hb : (collect b).Carries d z)
    (hsmall : y.natAbs + z.natAbs ≤ 2 ^ 53) :
    (combine (combine a b (-1)) b 1).Carries d y := by
  have hquotient : (combine a b (-1)).Carries d (y + -1 * z) :=
    carries_combine ha hb (by decide) (by omega) (by omega)
  rw [← collect_of_nodup (nodup_combine a b (-1))] at hquotient
  have hproduct : (combine (combine a b (-1)) b 1).Carries d (y + -1 * z + 1 * z) :=
    carries_combine hquotient hb (by decide) (by omega) (by omega)
  rwa [show y + -1 * z + 1 * z = y by omega] at hproduct

section

variable {a b : Units}

theorem factors_append (a b : Units) : factors (a ++ b) = factors a ++ factors b := by
  simp [factors]

theorem Exact.left (h : (a ++ b).Exact) : a.Exact where
  whole := fun f hf => h.whole f (factors_append a b ▸ List.mem_append_left _ hf)
  small := by
    have hsmall := h.small
    rw [factors_append, List.map_append, List.sum_append] at hsmall
    omega

theorem Exact.right (h : (a ++ b).Exact) : b.Exact where
  whole := fun f hf => h.whole f (factors_append a b ▸ List.mem_append_right _ hf)
  small := by
    have hsmall := h.small
    rw [factors_append, List.map_append, List.sum_append] at hsmall
    omega

/-- A bound on all exponents of two units bounds the two coordinates of a dimension together. -/
theorem Exact.natAbs_order_add_le (h : (a ++ b).Exact) {d : Dimension} (hd : d ≠ .reciprocal) :
    (a.order d).natAbs + (b.order d).natAbs ≤ 2 ^ 53 := by
  have hload := h.load_le hd
  have ha := natAbs_order_le_load (List.prefix_refl a) d
  have hb := natAbs_order_le_load (List.prefix_refl b) d
  rw [load_append] at hload
  omega

theorem Exact.carries_combine_cancel (h : (a ++ b).Exact) {d : Dimension} (hd : d ≠ .reciprocal) :
    (combine (combine a b (-1)) b 1).Carries d (a.order d) :=
  Units.carries_combine_cancel (h.left.carries_collect hd) (h.right.carries_collect hd)
    (h.natAbs_order_add_le hd)

/-- A base dimension that is at zero is absent. -/
theorem isPresent_eq_false_of_holds {t : Term}
    (h : t.dimension ≠ .reciprocal → t.exponent.Holds 0) : t.isPresent = false := by
  by_contra hp
  rw [Bool.not_eq_false, Term.isPresent_iff, Term.isReciprocal_eq_false_iff] at hp
  have hv : t.vanishes = true := (h hp.1).vanishes_eq
  rw [hp.2] at hv
  cases hv

/-- **Dividing by `b` and multiplying back restores `a`.** With whole exponents whose sizes, over
`a` and `b`, sum to at most `2⁵³`, the result is the normal form of `a`, term for term: the
dimensions in their places, with their exponents and prefixes, and the marker where it was or, if it
has to be put in, at the end. -/
theorem tidy_combine_cancel (h : (a ++ b).Exact) :
    tidy (combine (combine a b (-1)) b 1) = normalize a := by
  have hback : ∀ t ∈ combine (combine a b (-1)) b 1, t.dimension ≠ .reciprocal →
      t.exponent.Holds (a.order t.dimension) :=
    fun t ht hd => (h.carries_combine_cancel hd).holds t ht rfl
  -- The terms of `a` come first, and then those of dimensions that only `b` has.
  obtain ⟨old, new, hsplit, hold, hnew⟩ := List.map_eq_append_iff.mp (map_label_combine_cancel a b)
  rw [hsplit, List.forall_mem_append] at hback
  have habsent : ∀ t ∈ new, t.isPresent = false := by
    intro t ht
    apply isPresent_eq_false_of_holds
    intro hd
    obtain ⟨u, hu, hlabel⟩ := List.mem_map.mp (hnew ▸ List.mem_map_of_mem ht)
    have hdimension : u.dimension = t.dimension := (Prod.mk.inj hlabel).1
    have hfresh : u.dimension ∉ (collect a).map Term.dimension :=
      not_mentions_iff.mp (List.mem_filter.mp hu).2
    have hzero : a.order t.dimension = 0 :=
      (h.left.carries_collect hd).absent (hdimension ▸ hfresh)
    rw [← hzero]
    exact hback.2 t ht hd
  rw [hsplit, tidy_append_of_absent habsent, normalize]
  apply tidy_eq_of_holds hold hback.1
  intro t ht hd
  exact (h.left.carries_collect hd).holds t ht rfl

end

/-- A frequency, divided by units with a dimension that stands twice, one that stands at zero and
the only marker, whose exponent is no number: the marker comes to stand after the frequency. -/
theorem tidy_combine_cancel_frequency :
    let a : Units := [⟨.time, -3, some .milli⟩, ⟨.length, 0, none⟩, ⟨.time, 2, none⟩]
    let b : Units :=
      [⟨.mass, 2, some .kilo⟩, ⟨.reciprocal, .nan false, none⟩, ⟨.current, 0, none⟩,
        ⟨.time, 5, none⟩, ⟨.mass, -1, none⟩]
    (a ++ b).Exact ∧
      tidy (combine (combine a b (-1)) b 1) = [⟨.time, -1, some .milli⟩, .marker] := by
  intro a b
  have hexact : (a ++ b).Exact := by decide +kernel
  refine ⟨hexact, ?_⟩
  rw [tidy_combine_cancel hexact]
  decide +kernel

end Units

end Metrology
