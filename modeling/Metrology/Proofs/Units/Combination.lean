import Mathlib
import Metrology.Proofs.Units.Matching

/-!
# Metrology.Proofs.Units.Combination -- combining units, dimension by dimension

Gathering and combining put together terms of one dimension. What comes out is described here by
three things that determine it, each read off the units that go in: the list of dimensions, the
prefix that each dimension stands with, and the exponent of each.

The dimensions are those of the left units in the order in which they first appear, and then those
that only the right units have, in the same order (`dimensions_combine`); `eraseDups` keeps first
appearances. A prefix is the one that the dimension first stands with (`prefixOf?`), in the left
units before the right ones. Neither depends on what the exponents are. The exponents are the sums,
with no rounding anywhere, when all of them are whole and whatever is added or multiplied stays
within `2⁵³` (`CombineExactly`).
-/

namespace Metrology

namespace Units

open Binary64

/-! ## Dimensions -/

theorem collect_concat (units : Units) (t : Term) :
    collect (units ++ [t]) = absorb (collect units) t := by
  simp [collect]

/-- Gathering keeps the first appearance of every dimension. The induction is on the last term,
which is the one that is absorbed last. -/
theorem dimensions_collect (units : Units) :
    (collect units).map Term.dimension = (units.map Term.dimension).eraseDups := by
  induction units using List.reverseRecOn with
  | nil => rfl
  | append_singleton units t ih =>
    rw [collect_concat, map_dimension_absorb, ih, List.map_append, List.eraseDups_append,
      List.map_singleton, List.removeAll]
    by_cases hmem : t.dimension ∈ units.map Term.dimension
    · rw [if_pos (List.mem_eraseDups.mpr hmem), List.filter_cons_of_neg (by simpa using hmem)]
      simp
    · rw [if_neg fun h => hmem (List.mem_eraseDups.mp h),
        List.filter_cons_of_pos (by simpa using hmem)]
      rfl

theorem mentions_collect (units : Units) (d : Dimension) :
    (collect units).mentions d = units.mentions d := by
  rw [Bool.eq_iff_iff, mentions_iff, mentions_iff, dimensions_collect, List.mem_eraseDups]

theorem mentions_combine (a b : Units) (sign : Int) (d : Dimension) :
    (combine a b sign).mentions d = (a.mentions d || b.mentions d) := by
  rw [Bool.eq_iff_iff, mentions_iff, mem_map_dimension_combine, Bool.or_eq_true, ← mentions_iff,
    ← mentions_iff, mentions_collect, mentions_collect]

/-- First the dimensions of the left units, then those that only the right ones have. -/
theorem dimensions_combine (a b : Units) (sign : Int) :
    (combine a b sign).map Term.dimension =
      (a.map Term.dimension).eraseDups ++
        (b.map Term.dimension).eraseDups.filter fun d => !a.mentions d := by
  rw [map_dimension_combine, dimensions_collect, ← dimensions_collect b, List.filter_map]
  congr 3
  funext t
  rw [mentions_collect, Function.comp_apply]

/-! ## Prefixes -/

/-- The prefix that a dimension first stands with. -/
def prefixOf? (units : Units) (d : Dimension) : Option (Option Prefix) :=
  (units.find? d).map Term.siPrefix

theorem prefixOf?_cons (t : Term) (units : Units) (d : Dimension) :
    prefixOf? (t :: units) d = if t.dimension = d then some t.siPrefix else units.prefixOf? d := by
  unfold prefixOf? find?
  by_cases h : t.dimension = d
  · rw [List.find?_cons_of_pos (by simpa using h), if_pos h]
    rfl
  · rw [List.find?_cons_of_neg (by simpa using h), if_neg h]

theorem prefixOf?_append (a b : Units) (d : Dimension) :
    (a ++ b).prefixOf? d = (a.prefixOf? d).or (b.prefixOf? d) := by
  rw [prefixOf?, find?, List.find?_append, Option.map_or]
  rfl

theorem prefixOf?_eq_none_iff {units : Units} {d : Dimension} :
    units.prefixOf? d = none ↔ d ∉ units.map Term.dimension := by
  simp [prefixOf?, find?]

/-- Absorbing a term does not touch the prefix of one that was there before. -/
theorem prefixOf?_absorb (units : Units) (t : Term) (d : Dimension) :
    (absorb units t).prefixOf? d = (units ++ [t]).prefixOf? d := by
  induction units with
  | nil => rfl
  | cons u us ih =>
    rw [absorb, List.cons_append, prefixOf?_cons]
    by_cases hut : u.dimension = t.dimension
    · rw [if_pos hut, prefixOf?_cons]
      by_cases hud : u.dimension = d
      · rw [if_pos hud, if_pos hud]
      · -- The new term is of another dimension than `d`, too.
        have htd : t.dimension ≠ d := fun e => hud (hut.trans e)
        rw [if_neg hud, if_neg hud, prefixOf?_append, prefixOf?_cons, if_neg htd]
        exact Option.or_none.symm
    · rw [if_neg hut, prefixOf?_cons, ih]

theorem prefixOf?_collect (units : Units) (d : Dimension) :
    (collect units).prefixOf? d = units.prefixOf? d := by
  induction units using List.reverseRecOn with
  | nil => rfl
  | append_singleton units t ih =>
    rw [collect_concat, prefixOf?_absorb, prefixOf?_append, prefixOf?_append, ih]

/-- Where no dimension stands twice, each stands with the prefix of its term. -/
theorem prefixOf?_of_mem {units : Units} (hnodup : (units.map Term.dimension).Nodup) {t : Term}
    (ht : t ∈ units) : units.prefixOf? t.dimension = some t.siPrefix := by
  induction units with
  | nil => exact absurd ht List.not_mem_nil
  | cons u us ih =>
    rw [List.map_cons, List.nodup_cons] at hnodup
    rw [prefixOf?_cons]
    rcases List.mem_cons.mp ht with rfl | ht
    · rw [if_pos rfl]
    · have hne : u.dimension ≠ t.dimension :=
        fun e => hnodup.1 (e ▸ List.mem_map_of_mem ht)
      rw [if_neg hne, ih hnodup.2 ht]

theorem prefixOf?_of_mem_collect {units : Units} {t : Term} (ht : t ∈ collect units) :
    units.prefixOf? t.dimension = some t.siPrefix := by
  rw [← prefixOf?_collect]
  exact prefixOf?_of_mem (nodup_collect units) ht

/-- The prefix of a combined term is the first one of its dimension, the left units first. -/
theorem prefixOf?_of_mem_combine {a b : Units} {sign : Int} {t : Term}
    (ht : t ∈ combine a b sign) :
    (a.prefixOf? t.dimension).or (b.prefixOf? t.dimension) = some t.siPrefix := by
  rcases mem_combine ht with ⟨u, hu, rfl⟩ | ⟨u, hu, hfresh, rfl⟩
  · show (a.prefixOf? u.dimension).or (b.prefixOf? u.dimension) = some u.siPrefix
    rw [prefixOf?_of_mem_collect hu, Option.some_or]
  · show (a.prefixOf? u.dimension).or (b.prefixOf? u.dimension) = some u.siPrefix
    rw [← prefixOf?_eq_none_iff, prefixOf?_collect] at hfresh
    rw [hfresh, Option.none_or, prefixOf?_of_mem_collect hu]

/-! ## Exponents -/

theorem exponentOf_concat (units : Units) (t : Term) (d : Dimension) :
    exponentOf (units ++ [t]) d =
      if t.dimension = d then exponentOf units d + t.exponent else exponentOf units d := by
  simp [exponentOf]

/-- A sum of whole exponents that stays small on the way is the sum of the whole numbers. -/
theorem exponentOf_eq_ofInt_order {units : Units} {d : Dimension}
    (hwhole : ∀ t ∈ units, t.dimension = d → t.exponent.IsWhole) (hsums : units.SumsWithin d) :
    units.exponentOf d = ofInt (units.order d) := by
  induction units using List.reverseRecOn with
  | nil => rfl
  | append_singleton units t ih =>
    have hfront : (order units d).natAbs ≤ 2 ^ 53 := hsums _ (List.prefix_append _ _)
    have hall := hsums _ List.prefix_rfl
    have hrest : exponentOf units d = ofInt (order units d) :=
      ih (fun u hu => hwhole u (List.mem_append_left _ hu))
        fun front hfront => hsums front (hfront.trans (List.prefix_append _ _))
    rw [order_concat] at hall ⊢
    rw [exponentOf_concat, hrest]
    by_cases ht : t.dimension = d
    · rw [if_pos ht] at hall ⊢
      rw [if_pos ht]
      have hexponent : t.exponent.IsWhole := hwhole t (by simp) ht
      exact hexponent.ofInt_add hfront hall
    · rw [if_neg ht, if_neg ht, Int.add_zero]

/-- Units with whole exponents whose sums, as they are formed from the first term on, stay in the
range where whole numbers are exact. The marker counts as a dimension like the others. -/
structure Whole (units : Units) : Prop where
  whole : ∀ t ∈ units, t.exponent.IsWhole
  sums : ∀ d, units.SumsWithin d

/-- Units whose combination is exact: both sides are whole, and so is, in the range where whole
numbers are exact, all that is multiplied and added. -/
structure CombineExactly (a b : Units) (sign : Int) : Prop where
  left : a.Whole
  right : b.Whole
  factor : sign.natAbs ≤ 2 ^ 53
  products : ∀ d, (sign * b.order d).natAbs ≤ 2 ^ 53
  sums : ∀ d, (a.order d + sign * b.order d).natAbs ≤ 2 ^ 53

section

variable {a b : Units} {sign : Int}

theorem Whole.natAbs_order_le (h : a.Whole) (d : Dimension) : (a.order d).natAbs ≤ 2 ^ 53 :=
  h.sums d a List.prefix_rfl

theorem Whole.exponentOf_eq (h : a.Whole) (d : Dimension) : a.exponentOf d = ofInt (a.order d) :=
  exponentOf_eq_ofInt_order (fun t ht _ => h.whole t ht) (h.sums d)

theorem Whole.carries_collect (h : a.Whole) (d : Dimension) : (collect a).Carries d (a.order d) :=
  Units.carries_collect (fun t ht _ => h.whole t ht) (h.sums d)

theorem Whole.exponentOf_collect (h : a.Whole) (d : Dimension) :
    (collect a).exponentOf d = a.exponentOf d := by
  rw [(h.carries_collect d).exponentOf_eq (nodup_collect a), h.exponentOf_eq]

theorem CombineExactly.carries (h : CombineExactly a b sign) (d : Dimension) :
    (combine a b sign).Carries d (a.order d + sign * b.order d) :=
  carries_combine (h.left.carries_collect d) (h.right.carries_collect d) h.factor (h.products d)
    (h.sums d)

theorem CombineExactly.exponentOf_eq (h : CombineExactly a b sign) (d : Dimension) :
    (combine a b sign).exponentOf d = ofInt (a.order d + sign * b.order d) :=
  (h.carries d).exponentOf_eq (nodup_combine a b sign)

/-- What is computed from the exponents of the two sides is exact as well, so it is the same number
to the bit. -/
theorem CombineExactly.exponentOf_add (h : CombineExactly a b sign) (d : Dimension) :
    a.exponentOf d + ofInt sign * b.exponentOf d = ofInt (a.order d + sign * b.order d) := by
  have hright : (ofInt (b.order d)).Holds (b.order d) := holds_ofInt (h.right.natAbs_order_le d)
  have hproduct := (holds_ofInt h.factor).mul hright (h.products d)
  rw [h.left.exponentOf_eq, h.right.exponentOf_eq]
  exact hproduct.ofInt_add (h.left.natAbs_order_le d) (h.sums d)

theorem CombineExactly.symm (h : CombineExactly a b 1) : CombineExactly b a 1 where
  left := h.right
  right := h.left
  factor := h.factor
  products := by
    intro d
    rw [Int.one_mul]
    exact h.left.natAbs_order_le d
  sums := by
    intro d
    have hsum := h.sums d
    rw [Int.one_mul] at hsum ⊢
    rwa [Int.add_comm]

/-- Products in either order match: the dimensions are the same, and so are the sums. -/
theorem CombineExactly.matching_comm (h : CombineExactly a b 1) :
    matching (combine a b 1) (combine b a 1) = true := by
  rw [matching_iff_perm Term.dimension]
  · rw [List.perm_ext_iff_of_nodup (nodup_combine a b 1) (nodup_combine b a 1)]
    intro d
    rw [mem_map_dimension_combine, mem_map_dimension_combine, or_comm]
  · intro u hu t ht
    refine ⟨fun hut => (agrees_iff.mp hut).1, fun hut => ?_⟩
    have hleft := (h.carries t.dimension).holds u hu hut
    have hright := (h.symm.carries t.dimension).holds t ht rfl
    rw [Int.one_mul] at hleft hright
    refine agrees_iff.mpr ⟨hut, ?_⟩
    rw [hleft.close_eq hright]
    exact decide_eq_true (Int.add_comm _ _)

end

/-- **Combining is exact, dimension by dimension.** Combined units name the dimensions of either
side, each once: those of the left side in the order of their first appearance, then those of the
right side alone in theirs. Each stands with the prefix of its first appearance, on the left if it
appears there. With whole exponents, as long as all that is added and multiplied stays within `2⁵³`,
the exponent of every dimension is that of the left side plus `sign` times that of the right side.
So products match in either order. Gathering does the same to one side alone. -/
theorem combine_dimensionwise :
    (∀ (a b : Units) (sign : Int),
      (∀ d, (combine a b sign).mentions d = (a.mentions d || b.mentions d)) ∧
      ((combine a b sign).map Term.dimension).Nodup ∧
      (combine a b sign).map Term.dimension =
        (a.map Term.dimension).eraseDups ++
          ((b.map Term.dimension).eraseDups.filter fun d => !a.mentions d) ∧
      (∀ t ∈ combine a b sign,
        (a.prefixOf? t.dimension).or (b.prefixOf? t.dimension) = some t.siPrefix) ∧
      (CombineExactly a b sign → ∀ d,
        (combine a b sign).exponentOf d = a.exponentOf d + ofInt sign * b.exponentOf d ∧
        (combine a b sign).exponentOf d = ofInt (a.order d + sign * b.order d))) ∧
    (∀ a b : Units, CombineExactly a b 1 → matching (combine a b 1) (combine b a 1) = true) ∧
    ∀ units : Units,
      (collect units).map Term.dimension = (units.map Term.dimension).eraseDups ∧
      (∀ t ∈ collect units, units.prefixOf? t.dimension = some t.siPrefix) ∧
      (units.Whole → ∀ d, (collect units).exponentOf d = units.exponentOf d ∧
        (collect units).exponentOf d = ofInt (units.order d)) := by
  refine ⟨?_, fun a b h => h.matching_comm, ?_⟩
  · intro a b sign
    refine ⟨mentions_combine a b sign, nodup_combine a b sign, dimensions_combine a b sign,
      fun t ht => prefixOf?_of_mem_combine ht, ?_⟩
    intro h d
    rw [h.exponentOf_add]
    exact ⟨h.exponentOf_eq d, h.exponentOf_eq d⟩
  · intro units
    refine ⟨dimensions_collect units, fun t ht => prefixOf?_of_mem_collect ht, ?_⟩
    intro h d
    exact ⟨h.exponentOf_collect d, (h.exponentOf_collect d).trans (h.exponentOf_eq d)⟩

/-- A length and a rate, with dimensions that stand twice, a marker on either side, a dimension that
cancels and one whose exponent is zero. -/
theorem combine_dimensionwise_rate :
    let a : Units := [⟨.length, 1, some .kilo⟩, ⟨.time, -2, none⟩, .marker, ⟨.length, 2, none⟩]
    let b : Units :=
      [⟨.current, 0, none⟩, ⟨.time, 1, some .milli⟩, .marker, ⟨.mass, -3, some .kilo⟩,
        ⟨.time, 1, none⟩]
    CombineExactly a b (-2) ∧ CombineExactly a b 1 ∧
      (combine a b (-2)).map Term.dimension =
        [.length, .time, .reciprocal, .current, .mass] ∧
      (combine a b (-2)).exponentOf .time = -6 ∧ (combine a b (-2)).exponentOf .mass = 6 ∧
      (combine a b 1).exponentOf .time = 0 ∧
      matching (combine a b 1) (combine b a 1) = true := by
  intro a b
  have hloads : ∀ d ∈ Dimension.all, a.load d ≤ 2 ^ 53 ∧ b.load d ≤ 2 ^ 53 ∧
      ∀ sign ∈ [-2, (1 : Int)], (sign * b.order d).natAbs ≤ 2 ^ 53 ∧
        (a.order d + sign * b.order d).natAbs ≤ 2 ^ 53 := by
    decide +kernel
  have ha : a.Whole :=
    ⟨by decide +kernel, fun d => sumsWithin_of_load (hloads d d.mem_all).1⟩
  have hb : b.Whole :=
    ⟨by decide +kernel, fun d => sumsWithin_of_load (hloads d d.mem_all).2.1⟩
  have hexact : ∀ sign ∈ [-2, (1 : Int)], CombineExactly a b sign := by
    intro sign hsign
    refine ⟨ha, hb, ?_, ?_, ?_⟩
    · revert sign
      decide
    · exact fun d => ((hloads d d.mem_all).2.2 sign hsign).1
    · exact fun d => ((hloads d d.mem_all).2.2 sign hsign).2
  have hquotient : CombineExactly a b (-2) := hexact (-2) (by decide)
  have hproduct : CombineExactly a b 1 := hexact 1 (by decide)
  obtain ⟨hcombine, hcomm, -⟩ := combine_dimensionwise
  obtain ⟨-, -, hdimensions, -, hquotients⟩ := hcombine a b (-2)
  obtain ⟨-, -, -, -, hproducts⟩ := hcombine a b 1
  refine ⟨hquotient, hproduct, hdimensions.trans (by decide +kernel), ?_, ?_, ?_,
    hcomm a b hproduct⟩
  · exact (hquotients hquotient .time).2.trans (by decide +kernel)
  · exact (hquotients hquotient .mass).2.trans (by decide +kernel)
  · exact (hproducts hproduct .time).2.trans (by decide +kernel)

end Units

end Metrology
