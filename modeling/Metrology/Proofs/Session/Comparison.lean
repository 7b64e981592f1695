import Mathlib
import Metrology.Proofs.Session.Normal
import Metrology.Proofs.Units.Matching

/-!
# Metrology.Proofs.Session.Comparison -- comparing the quantities of a run

Two comparisons meet when quantities are compared: that of their units, which has to be passed
first, and that of their values. Greater is less with the operands exchanged, so the units are
compared the other way round for it, and the six answers fit together only because that makes no
difference. It makes none for the quantities that arise in a run. In their units no dimension stands
twice, and on such units the count of hits is a matching, which is symmetric for any exponents,
close, infinite or NaN (`hasSameUnits_comm`).

With the same units, what is left is the order of the values: of less, equal and greater exactly one
holds, or none if a value is NaN (`count_compare`).
-/

namespace Metrology

namespace Quantity

section

variable {q r : Quantity}

theorem hasSameUnits_comm (hq : q.Arises) (hr : r.Arises) :
    q.hasSameUnits r = r.hasSameUnits q :=
  Units.sameDimensions_comm hq.normal.distinct hr.normal.distinct

/-- A sum of quantities fails for one reason only. -/
theorem exists_additive_eq_mismatch_iff {f : Binary64 → Binary64 → Binary64} :
    (∃ cause, q.additive f (.quantity r) = .error (.mismatch cause)) ↔
      q.hasSameUnits r = false := by
  rw [additive_quantity]
  cases q.hasSameUnits r with
  | true => simp
  | false => simp

/-- **The two comparisons of units agree where no dimension stands twice.** There, whatever the
exponents are, counting the terms that hit some term gives the same answer as pairing them off, in
either direction. So having the same units is symmetric on the quantities that arise in runs, and a
sum or difference of two of them is refused for its units exactly when the one with its operands
exchanged is. -/
theorem hasSameUnits_symmetric :
    (∀ a b : Units, (a.map Term.dimension).Nodup → (b.map Term.dimension).Nodup →
      a.sameDimensions b = a.matching b ∧ a.matching b = b.sameDimensions a) ∧
    ∀ q r : Quantity, q.Arises → r.Arises →
      q.hasSameUnits r = q.units.matching r.units ∧ q.hasSameUnits r = r.hasSameUnits q ∧
      ∀ op ∈ [Operation.add, .sub],
        (∃ cause, q.operate op (.quantity r) = .error (.mismatch cause)) ↔
          ∃ cause, r.operate op (.quantity q) = .error (.mismatch cause) := by
  refine ⟨?_, ?_⟩
  · intro a b ha hb
    have hmatching := Units.matching_eq_sameDimensions (a := a) hb
    exact ⟨hmatching.symm, hmatching.trans (Units.sameDimensions_comm ha hb)⟩
  · intro q r hq hr
    refine ⟨(Units.matching_eq_sameDimensions hr.normal.distinct).symm, hasSameUnits_comm hq hr, ?_⟩
    intro op hop
    obtain ⟨f, hf⟩ := operate_of_sum hop
    rw [hf, hf, exists_additive_eq_mismatch_iff, exists_additive_eq_mismatch_iff,
      hasSameUnits_comm hq hr]

/-- Roots of areas over times, with exponents that are close in one pair and NaN in another. -/
theorem hasSameUnits_symmetric_roots :
    let a : Units := [⟨.length, 0.5, some .kilo⟩, ⟨.time, -1, none⟩]
    let b : Units := [⟨.time, -0.99999999995, none⟩, ⟨.length, 0.5, none⟩]
    let q : Quantity := ofUnits 3 a {}
    let r : Quantity := ofUnits 4 [⟨.length, 0.5, none⟩, ⟨.time, .nan false, none⟩] {}
    (a.map Term.dimension).Nodup ∧ (b.map Term.dimension).Nodup ∧ a.matching b = true ∧
      b.sameDimensions a = true ∧ q.Arises ∧ r.Arises ∧ q.hasSameUnits r = false ∧
      ∃ cause, r.operate .add (.quantity q) = .error (.mismatch cause) := by
  intro a b q r
  obtain ⟨hunits, hquantities⟩ := hasSameUnits_symmetric
  have ha : (a.map Term.dimension).Nodup := by decide
  have hb : (b.map Term.dimension).Nodup := by decide
  have hq : q.Arises := arises_iff.mpr (normal_ofUnits _ _ _)
  have hr : r.Arises := arises_iff.mpr (normal_ofUnits _ _ _)
  obtain ⟨hcount, hback⟩ := hunits a b ha hb
  obtain ⟨hmatching, -, hsum⟩ := hquantities q r hq hr
  have hab : a.matching b = true := hcount.symm.trans (by decide +kernel)
  refine ⟨ha, hb, hab, hback.symm.trans hab, hq, hr, hmatching.trans (by decide +kernel), ?_⟩
  exact (hsum .add (by decide)).mp ⟨.summands q.units r.units, by decide +kernel⟩

/-! ## Comparing values -/

/-- How many of less, equal and greater hold. -/
theorem count_compare (hq : q.Arises) (hr : r.Arises) :
    let c := q.compare (.quantity r)
    [c.less, c.equal, c.greater].count true =
      if q.hasSameUnits r && !(q.value.isNaN || r.value.isNaN) then 1 else 0 := by
  intro c
  have hgreater : c.greater = (q.hasSameUnits r && r.value.less q.value) := by
    rw [hasSameUnits_comm hq hr]
    rfl
  have hless : c.less = (q.hasSameUnits r && q.value.less r.value) := rfl
  have hequal : c.equal = (q.hasSameUnits r && q.value.equals r.value) := rfl
  rw [hless, hequal, hgreater]
  cases q.hasSameUnits r with
  | false => rfl
  | true =>
    simp only [Bool.true_and]
    rw [Binary64.count_order]
    cases q.value.isNaN || r.value.isNaN <;> rfl

/-- **Comparisons of quantities are one order.** For any two quantities that arise in runs, with any
values and exponents: greater is less the other way round, and so with equality; equality is the
same either way round, and unequal is its negation; less or equal is what it says. At most one of
less, equal and greater holds, and one does exactly when the units are the same and neither value is
NaN. With other units, unequal is all that holds. -/
theorem compare_consistent (hq : q.Arises) (hr : r.Arises) :
    let c := q.compare (.quantity r)
    let c' := r.compare (.quantity q)
    c.greater = c'.less ∧ c.greaterEqual = c'.lessEqual ∧ c.equal = c'.equal ∧
      c.unequal = !c.equal ∧ c.lessEqual = (c.less || c.equal) ∧
      [c.less, c.equal, c.greater].count true ≤ 1 ∧
      ([c.less, c.equal, c.greater].count true = 1 ↔
        q.hasSameUnits r = true ∧ q.value.isNaN = false ∧ r.value.isNaN = false) ∧
      (q.hasSameUnits r = false → c = ⟨false, false, false, true, false, false⟩) := by
  intro c c'
  have hcount := count_compare hq hr
  have hequal : c.equal = c'.equal := by
    show (q.hasSameUnits r && q.value.equals r.value) = (r.hasSameUnits q && r.value.equals q.value)
    rw [hasSameUnits_comm hq hr, Binary64.equals_comm]
  have hlessEqual : c.lessEqual = (c.less || c.equal) := by
    show (q.hasSameUnits r && q.value.lessEqual r.value) = _
    rw [Binary64.lessEqual_eq_or, Bool.and_or_distrib_left]
    rfl
  refine ⟨rfl, rfl, hequal, rfl, hlessEqual, ?_, ?_, ?_⟩
  · rw [hcount]
    split <;> decide
  · rw [hcount]
    simp
  · intro hother
    have hother' : r.hasSameUnits q = false := hasSameUnits_comm hq hr ▸ hother
    simp [c, compare, less, lessEqual, equals, greater, greaterEqual, comparedBy, hother, hother']

/-- Zeros of either sign with different prefixes, a length that is NaN, and a time. -/
theorem compare_consistent_zeros :
    let q : Quantity := ofUnits 0 [⟨.length, 1, none⟩] {}
    let r : Quantity := ofUnits (-0.0) [⟨.length, 1, some .kilo⟩] {}
    let s : Quantity := ofUnits (.nan false) [⟨.length, 1, none⟩] {}
    let t : Quantity := ofUnits 0 [⟨.time, 1, none⟩] {}
    q.Arises ∧ r.Arises ∧ s.Arises ∧ t.Arises ∧
      (q.compare (.quantity r)).equal = true ∧ (r.compare (.quantity q)).greaterEqual = true ∧
      ¬ [(q.compare (.quantity s)).less, (q.compare (.quantity s)).equal,
          (q.compare (.quantity s)).greater].count true = 1 ∧
      q.compare (.quantity t) = ⟨false, false, false, true, false, false⟩ := by
  intro q r s t
  have hq : q.Arises := arises_iff.mpr (normal_ofUnits _ _ _)
  have hr : r.Arises := arises_iff.mpr (normal_ofUnits _ _ _)
  have hs : s.Arises := arises_iff.mpr (normal_ofUnits _ _ _)
  have ht : t.Arises := arises_iff.mpr (normal_ofUnits _ _ _)
  obtain ⟨-, -, hequal, -⟩ := compare_consistent hq hr
  obtain ⟨-, hgreaterEqual, -⟩ := compare_consistent hr hq
  obtain ⟨-, -, -, -, -, -, hnan, -⟩ := compare_consistent hq hs
  obtain ⟨-, -, -, -, -, -, -, hother⟩ := compare_consistent hq ht
  refine ⟨hq, hr, hs, ht, hequal.trans (by decide +kernel), hgreaterEqual.trans (by decide +kernel),
    ?_, hother (by decide +kernel)⟩
  rw [hnan]
  decide +kernel

end

end Quantity

end Metrology
