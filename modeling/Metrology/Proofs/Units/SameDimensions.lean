import Mathlib
import Metrology.Proofs.Units.Vector

/-!
# Metrology.Proofs.Units.SameDimensions -- comparing dimensions by counting

`sameDimensions` compares the counts of two lists and then counts the terms of one that agree with
some term of the other. On any lists this is no equality of dimensions. On normal units with whole
exponents it is (`sameDimensions_iff_of_normal`), for two reasons. No dimension stands twice, so
equal counts and one inclusion make the dimensions the same; and whether the marker stands there,
which counts like any other term, is settled by the vector (`reciprocal_mem_iff`).

Units as read, with repeated dimensions and any markers, come to it through `normalize`.
-/

namespace Metrology

namespace Units

open Binary64

/-! ## What a vector says about a normal unit -/

/-- In normal form, a base dimension stands there exactly when its coordinate is not zero. -/
theorem Normal.dimension_mem_iff {units : Units} (h : units.Normal) {d : Dimension} {z : Int}
    (hd : d ≠ .reciprocal) (hz : units.Carries d z) :
    d ∈ units.map Term.dimension ↔ z ≠ 0 := by
  constructor
  · intro hmem
    obtain ⟨t, ht, rfl⟩ := List.mem_map.mp hmem
    have hr : t.isReciprocal = false := (Term.isReciprocal_eq_false_iff t).mpr hd
    have hv : Exponent.vanishes t.exponent = false := h.present t ht hr
    rw [(hz.holds t ht rfl).vanishes_eq] at hv
    exact of_decide_eq_false hv
  · intro hne
    by_contra hmem
    exact hne (hz.absent hmem)

theorem inNumerator_iff {t : Term} {z : Int} (hd : t.dimension ≠ .reciprocal)
    (hz : t.exponent.Holds z) : t.inNumerator = true ↔ 0 < z := by
  have hr : t.isReciprocal = false := (Term.isReciprocal_eq_false_iff t).mpr hd
  have hv : t.vanishes = decide (z = 0) := hz.vanishes_eq
  unfold Term.inNumerator
  rw [hr, hv, holds_zero.less_eq hz]
  simp
  omega

/-- There is a numerator exactly when some base dimension has a positive coordinate. -/
theorem any_inNumerator_iff {units : Units} {v : Dimension → Int}
    (hv : ∀ d, d ≠ .reciprocal → units.Carries d (v d)) :
    units.any Term.inNumerator = true ↔ ∃ d, d ≠ .reciprocal ∧ 0 < v d := by
  rw [List.any_eq_true]
  constructor
  · rintro ⟨t, ht, hn⟩
    have hp := (Term.isPresent_iff t).mp (Term.isPresent_of_inNumerator hn)
    have hd : t.dimension ≠ .reciprocal := (Term.isReciprocal_eq_false_iff t).mp hp.1
    exact ⟨t.dimension, hd, (inNumerator_iff hd ((hv _ hd).holds t ht rfl)).mp hn⟩
  · rintro ⟨d, hd, hpos⟩
    have hmem : d ∈ units.map Term.dimension := by
      by_contra hmem
      exact hpos.ne' ((hv d hd).absent hmem)
    obtain ⟨t, ht, rfl⟩ := List.mem_map.mp hmem
    exact ⟨t, ht, (inNumerator_iff hd ((hv _ hd).holds t ht rfl)).mpr hpos⟩

/-- In normal form, the marker stands there exactly when no coordinate is positive. -/
theorem Normal.reciprocal_mem_iff {units : Units} (h : units.Normal) {v : Dimension → Int}
    (hv : ∀ d, d ≠ .reciprocal → units.Carries d (v d)) :
    .reciprocal ∈ units.map Term.dimension ↔ ¬ ∃ d, d ≠ .reciprocal ∧ 0 < v d := by
  rw [← any_inNumerator_iff hv]
  have hm := h.markers
  constructor
  · intro hmem hn
    obtain ⟨t, ht, hd⟩ := List.mem_map.mp hmem
    rw [if_pos hn, List.filter_eq_nil_iff] at hm
    exact hm t ht ((Term.isReciprocal_iff t).mpr hd)
  · intro hn
    rw [if_neg hn] at hm
    -- Without a numerator the form asks for the marker.
    have hmarker : Term.marker ∈ units.filter Term.isReciprocal := by
      rw [hm]
      exact List.mem_singleton_self _
    exact List.mem_map.mpr ⟨.marker, (List.mem_filter.mp hmarker).1, rfl⟩

/-- Normal units with the same vector have the same dimensions, the marker's included. -/
theorem dimension_mem_congr {a b : Units} (ha : a.Normal) (hb : b.Normal) {v : Dimension → Int}
    (hav : ∀ d, d ≠ .reciprocal → a.Carries d (v d))
    (hbv : ∀ d, d ≠ .reciprocal → b.Carries d (v d)) (d : Dimension) :
    d ∈ a.map Term.dimension ↔ d ∈ b.map Term.dimension := by
  by_cases hd : d = .reciprocal
  · subst hd
    rw [ha.reciprocal_mem_iff hav, hb.reciprocal_mem_iff hbv]
  · rw [ha.dimension_mem_iff hd (hav d hd), hb.dimension_mem_iff hd (hbv d hd)]

/-! ## Counting -/

/-- What the two counts of `sameDimensions` say together. -/
theorem sameDimensions_iff_forall {a b : Units} :
    sameDimensions a b = true ↔ a.length = b.length ∧ ∀ t ∈ b, ∃ u ∈ a, u.agrees t = true := by
  unfold sameDimensions
  rw [Bool.and_eq_true, decide_eq_true_eq, decide_eq_true_eq]
  constructor
  · rintro ⟨hlen, hcount⟩
    rw [hlen, List.countP_eq_length] at hcount
    exact ⟨hlen, fun t ht => List.any_eq_true.mp (hcount t ht)⟩
  · rintro ⟨hlen, hall⟩
    refine ⟨hlen, ?_⟩
    rw [hlen, List.countP_eq_length]
    exact fun t ht => List.any_eq_true.mpr (hall t ht)

theorem agrees_iff {t u : Term} :
    u.agrees t = true ↔
      u.dimension = t.dimension ∧ Exponent.close u.exponent t.exponent = true := by
  simp [Term.agrees]

/-- Among lists of one length, distinct dimensions of one that all stand in the other are all of
them. -/
theorem dimension_mem_of_sameDimensions {a b : Units} (hb : (b.map Term.dimension).Nodup)
    (h : sameDimensions a b = true) {d : Dimension} (hd : d ∈ a.map Term.dimension) :
    d ∈ b.map Term.dimension := by
  obtain ⟨hlen, hall⟩ := sameDimensions_iff_forall.mp h
  -- The hits go from `b` to `a`; the length turns the inclusion around.
  have hsub : b.map Term.dimension ⊆ a.map Term.dimension := by
    intro e he
    obtain ⟨t, ht, rfl⟩ := List.mem_map.mp he
    obtain ⟨u, hu, hut⟩ := hall t ht
    exact List.mem_map.mpr ⟨u, hu, (agrees_iff.mp hut).1⟩
  have hperm : (b.map Term.dimension).Perm (a.map Term.dimension) :=
    (List.subperm_of_subset hb hsub).perm_of_length_le (by simp [hlen])
  exact hperm.mem_iff.mpr hd

/-- On normal units, counting decides equality of vectors. -/
theorem sameDimensions_iff_of_normal {a b : Units} (ha : a.Normal) (hb : b.Normal)
    {v w : Dimension → Int} (hv : ∀ d, d ≠ .reciprocal → a.Carries d (v d))
    (hw : ∀ d, d ≠ .reciprocal → b.Carries d (w d)) :
    sameDimensions a b = true ↔ ∀ d, d ≠ .reciprocal → v d = w d := by
  constructor
  · intro h d hd
    by_cases hmem : d ∈ b.map Term.dimension
    · obtain ⟨t, ht, rfl⟩ := List.mem_map.mp hmem
      obtain ⟨u, hu, hut⟩ := (sameDimensions_iff_forall.mp h).2 t ht
      obtain ⟨hdim, hclose⟩ := agrees_iff.mp hut
      rw [((hv _ hd).holds u hu hdim).close_eq ((hw _ hd).holds t ht rfl)] at hclose
      exact of_decide_eq_true hclose
    · -- A dimension of `a` alone would not be hit, so it stands in neither.
      have hmem' : d ∉ a.map Term.dimension :=
        fun hd' => hmem (dimension_mem_of_sameDimensions hb.distinct h hd')
      rw [(hv d hd).absent hmem', (hw d hd).absent hmem]
  · -- One vector gives one set of dimensions, so every term finds its partner.
    intro hvw
    have hwa : ∀ d, d ≠ .reciprocal → a.Carries d (w d) :=
      fun d hd => hvw d hd ▸ hv d hd
    have hperm : (a.map Term.dimension).Perm (b.map Term.dimension) :=
      (List.perm_ext_iff_of_nodup ha.distinct hb.distinct).mpr (dimension_mem_congr ha hb hwa hw)
    rw [sameDimensions_iff_forall]
    refine ⟨by simpa using hperm.length_eq, ?_⟩
    intro t ht
    obtain ⟨u, hu, hut⟩ := List.mem_map.mp (hperm.mem_iff.mpr (List.mem_map_of_mem ht))
    refine ⟨u, hu, agrees_iff.mpr ⟨hut, ?_⟩⟩
    by_cases hd : t.dimension = .reciprocal
    · -- Both terms are the marker, whose exponent is one.
      rw [ha.eq_marker hu (hut.trans hd), hb.eq_marker ht hd]
      exact holds_one.close_eq holds_one
    · rw [((hwa _ hd).holds u hu hut).close_eq ((hw _ hd).holds t ht rfl)]
      exact decide_eq_true rfl

/-! ## Units as read -/

/-- The base dimensions and their exponents as they are read: no markers, no prefixes. -/
def factors (units : Units) : List (Dimension × Binary64) :=
  (units.filter fun t => !t.isReciprocal).map fun t => (t.dimension, t.exponent)

/-- Units whose base dimensions have whole exponents, small enough for every sum to be exact. -/
structure Exact (units : Units) : Prop where
  whole : ∀ f ∈ units.factors, f.2.IsWhole
  small : (units.factors.map fun f => f.2.toInt.natAbs).sum ≤ 2 ^ 53

instance (units : Units) : Decidable units.Exact :=
  decidable_of_iff
    ((∀ f ∈ units.factors, f.2.IsWhole) ∧
      (units.factors.map fun f => f.2.toInt.natAbs).sum ≤ 2 ^ 53)
    ⟨fun h => ⟨h.1, h.2⟩, fun h => ⟨h.whole, h.small⟩⟩

theorem factors_cons (t : Term) (units : Units) :
    factors (t :: units) =
      if t.isReciprocal then factors units else (t.dimension, t.exponent) :: factors units := by
  unfold factors
  cases h : t.isReciprocal with
  | false => rw [List.filter_cons_of_pos (by simp [h]), List.map_cons, if_neg Bool.false_ne_true]
  | true => rw [List.filter_cons_of_neg (by simp [h]), if_pos rfl]

/-- The order of a base dimension is read off the factors. -/
theorem order_eq_sum_factors {d : Dimension} (hd : d ≠ .reciprocal) (units : Units) :
    units.order d = (units.factors.map fun f => if f.1 = d then f.2.toInt else 0).sum := by
  induction units with
  | nil => rfl
  | cons t ts ih =>
    rw [order_cons, factors_cons, ih]
    by_cases hr : t.isReciprocal = true
    · have hne : t.dimension ≠ d := by
        rw [(Term.isReciprocal_iff t).mp hr]
        exact hd.symm
      rw [if_pos hr, if_neg hne, Int.zero_add]
    · rw [if_neg hr, List.map_cons, List.sum_cons]

theorem load_le_sum_factors {d : Dimension} (hd : d ≠ .reciprocal) (units : Units) :
    units.load d ≤ (units.factors.map fun f => f.2.toInt.natAbs).sum := by
  induction units with
  | nil => exact Nat.le_refl _
  | cons t ts ih =>
    rw [load_cons, factors_cons]
    by_cases hr : t.isReciprocal = true
    · have hne : t.dimension ≠ d := by
        rw [(Term.isReciprocal_iff t).mp hr]
        exact hd.symm
      rw [if_pos hr, if_neg hne, Nat.zero_add]
      exact ih
    · rw [if_neg hr, List.map_cons, List.sum_cons]
      by_cases ht : t.dimension = d
      · rw [if_pos ht]
        exact Nat.add_le_add_left ih _
      · rw [if_neg ht]
        omega

theorem Exact.load_le {units : Units} (h : units.Exact) {d : Dimension} (hd : d ≠ .reciprocal) :
    units.load d ≤ 2 ^ 53 :=
  Nat.le_trans (load_le_sum_factors hd units) h.small

theorem Exact.isWhole {units : Units} (h : units.Exact) {t : Term} (ht : t ∈ units)
    (hd : t.dimension ≠ .reciprocal) : t.exponent.IsWhole := by
  have hr : t.isReciprocal = false := (Term.isReciprocal_eq_false_iff t).mpr hd
  exact h.whole (t.dimension, t.exponent)
    (List.mem_map.mpr ⟨t, List.mem_filter.mpr ⟨ht, by simp [hr]⟩, rfl⟩)

theorem Exact.carries_collect {units : Units} (h : units.Exact) {d : Dimension}
    (hd : d ≠ .reciprocal) : (collect units).Carries d (units.order d) :=
  Units.carries_collect (fun _ ht htd => h.isWhole ht (htd ▸ hd))
    (sumsWithin_of_load (h.load_le hd))

theorem Exact.carries_normalize {units : Units} (h : units.Exact) {d : Dimension}
    (hd : d ≠ .reciprocal) : units.normalize.Carries d (units.order d) :=
  (h.carries_collect hd).tidy hd

theorem Exact.sameDimensions_iff {a b : Units} (ha : a.Exact) (hb : b.Exact) :
    sameDimensions a.normalize b.normalize = true ↔
      ∀ d, d ≠ .reciprocal → a.order d = b.order d :=
  sameDimensions_iff_of_normal (normal_normalize a) (normal_normalize b)
    (fun _ hd => ha.carries_normalize hd) (fun _ hd => hb.carries_normalize hd)

/-- Another order of the factors, other prefixes and other markers change neither the bound nor any
order. -/
theorem Exact.of_perm {a b : Units} (ha : a.Exact) (h : a.factors.Perm b.factors) : b.Exact where
  whole := fun f hf => ha.whole f (h.mem_iff.mpr hf)
  small := by
    rw [← (h.map fun f => f.2.toInt.natAbs).sum_eq]
    exact ha.small

theorem order_congr_of_perm {a b : Units} (h : a.factors.Perm b.factors) {d : Dimension}
    (hd : d ≠ .reciprocal) : a.order d = b.order d := by
  rw [order_eq_sum_factors hd, order_eq_sum_factors hd]
  exact (h.map _).sum_eq

/-- **Comparing normal forms decides dimensional equality.** Units with whole exponents whose sizes
sum to at most `2⁵³` have the same dimensions, once normalized, exactly when every base dimension
has the same sum of exponents in both. So the comparison is an equivalence on such units, and it
does not see their order, their prefixes or their markers. -/
theorem sameDimensions_normalize_iff :
    (∀ a b : Units, a.Exact → b.Exact →
      (sameDimensions a.normalize b.normalize = true ↔
        ∀ d, d ≠ .reciprocal → a.order d = b.order d)) ∧
    Equivalence (fun a b : { units : Units // units.Exact } =>
      sameDimensions a.1.normalize b.1.normalize = true) ∧
    ∀ a a' b : Units, a.Exact → b.Exact → a.factors.Perm a'.factors →
      sameDimensions a'.normalize b.normalize = sameDimensions a.normalize b.normalize := by
  refine ⟨fun a b ha hb => ha.sameDimensions_iff hb, ?_, ?_⟩
  · constructor
    · intro a
      exact (a.2.sameDimensions_iff a.2).mpr fun _ _ => rfl
    · intro a b h
      rw [a.2.sameDimensions_iff b.2] at h
      exact (b.2.sameDimensions_iff a.2).mpr fun d hd => (h d hd).symm
    · intro a b c hab hbc
      rw [a.2.sameDimensions_iff b.2] at hab
      rw [b.2.sameDimensions_iff c.2] at hbc
      exact (a.2.sameDimensions_iff c.2).mpr fun d hd => (hab d hd).trans (hbc d hd)
  · intro a a' b ha hb hperm
    rw [Bool.eq_iff_iff, (ha.of_perm hperm).sameDimensions_iff hb, ha.sameDimensions_iff hb]
    exact forall₂_congr fun d hd => by rw [order_congr_of_perm hperm hd]

/-- A force by an area and a pressure: a dimension that stands twice, another order, other
prefixes, a marker, and an exponent of zero. -/
theorem sameDimensions_normalize_pressure :
    let force : Units :=
      [⟨.mass, 1, some .kilo⟩, ⟨.length, 1, none⟩, ⟨.time, -2, none⟩, ⟨.length, -2, none⟩]
    let respelled : Units :=
      [⟨.length, -2, some .centi⟩, .marker, ⟨.time, -2, some .milli⟩, ⟨.length, 1, none⟩,
        ⟨.mass, 1, none⟩]
    let pressure : Units :=
      [.marker, ⟨.time, -2, none⟩, ⟨.mass, 1, some .mega⟩, ⟨.length, -1, none⟩,
        ⟨.current, 0, none⟩]
    force.Exact ∧ pressure.Exact ∧ force.factors.Perm respelled.factors ∧
      sameDimensions force.normalize pressure.normalize = true ∧
      sameDimensions respelled.normalize pressure.normalize = true := by
  intro force respelled pressure
  have hforce : force.Exact := by decide +kernel
  have hpressure : pressure.Exact := by decide +kernel
  have hperm : force.factors.Perm respelled.factors := by decide +kernel
  have hsame : sameDimensions force.normalize pressure.normalize = true := by
    have horders : ∀ d ∈ Dimension.all.erase .reciprocal, force.order d = pressure.order d := by
      decide +kernel
    apply (sameDimensions_normalize_iff.1 force pressure hforce hpressure).mpr
    intro d hd
    exact horders d ((List.mem_erase_of_ne hd).mpr d.mem_all)
  refine ⟨hforce, hpressure, hperm, hsame, ?_⟩
  rw [sameDimensions_normalize_iff.2.2 force respelled pressure hforce hpressure hperm]
  exact hsame

end Units

end Metrology
