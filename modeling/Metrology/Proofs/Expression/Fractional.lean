import Mathlib
import Metrology.Proofs.Expression
import Metrology.Proofs.Units.SameDimensions

/-!
# Metrology.Proofs.Expression.Fractional -- units read back from their fractional notation

The fractional notation drops the marker and the signs of the exponents; what stands below the slash
is all that tells a negative exponent from a positive one. For normal units both sides of the slash
are lists of factors (`numerator_eq`, `denominator_eq`): above it the terms with a positive
exponent, among them the marker, whose factor is the lone `1`; below it the others. Reading turns
the exponents below the slash around, and so gives the terms back, those from above first
(`parse_fractional_of_below`).

Normal units always have something above the slash, and need not have anything below it. An empty
denominator holds one empty item, so the notation of such units, whose slash is always there, is no
expression (`parse_fractional_of_below_eq_nil`).
-/

namespace Metrology

open Binary64 Symbols

namespace Units

/-- The terms that are written above the slash. -/
def above (units : Units) : Units := units.filter isAbove

/-- The terms that are written below the slash. -/
def below (units : Units) : Units := units.filter fun t => !isAbove t

/-- Normal units whose base dimensions have whole exponents of 31 bits and a sign. -/
structure IsFraction (units : Units) : Prop where
  normal : units.Normal
  whole : ∀ t ∈ units, t.isReciprocal = false → t.exponent.IsWhole
  small : ∀ t ∈ units, t.isReciprocal = false → t.exponent.toInt.natAbs ≤ 2 ^ 31 - 1

section

variable {units : Units} {t : Term}

/-! ## The terms of the two sides -/

theorem above_append_below_perm (units : Units) : (units.above ++ units.below).Perm units :=
  List.filter_append_perm isAbove units

theorem mem_of_mem_above (h : t ∈ units.above) : t ∈ units := (List.mem_filter.mp h).1

theorem mem_of_mem_below (h : t ∈ units.below) : t ∈ units := (List.mem_filter.mp h).1

theorem isAbove_marker : isAbove .marker = true := by decide +kernel

theorem IsFraction.isWritable (h : units.IsFraction) (ht : t ∈ units) : t.IsWritable := by
  refine isWritable_of_normal h.normal (fun u hu hr => ?_) ht
  have hsmall := h.small u hu hr
  exact ⟨h.whole u hu hr, by omega, by omega⟩

/-- A base dimension has a whole exponent, positive above the slash and negative below it. -/
theorem IsFraction.exists_int (h : units.IsFraction) (ht : t ∈ units)
    (hd : t.dimension ≠ .reciprocal) :
    ∃ z : Int, t.exponent = ofInt z ∧ z ≠ 0 ∧ z.natAbs ≤ 2 ^ 31 - 1 ∧
      isAbove t = decide (0 < z) := by
  rcases (h.isWritable ht).cases with rfl | ⟨_, z, hz, hne, _, _⟩
  · exact absurd rfl hd
  · have hint : t.exponent.toInt = z := by
      rw [hz]
      exact (holds_ofInt (show z.natAbs ≤ 2 ^ 53 by omega)).toInt_eq
    have hsmall := h.small t ht ((Term.isReciprocal_eq_false_iff t).mpr hd)
    rw [hint] at hsmall
    exact ⟨z, hz, hne, hsmall, isAbove_eq hz (by omega)⟩

/-- What stands below the slash is a base dimension. -/
theorem IsFraction.dimension_ne (h : units.IsFraction) (ht : t ∈ units.below) :
    t.dimension ≠ .reciprocal := by
  intro hd
  obtain ⟨hmem, hbelow⟩ := List.mem_filter.mp ht
  rw [h.normal.eq_marker hmem hd, isAbove_marker] at hbelow
  exact Bool.noConfusion hbelow

theorem IsFraction.isPresent_eq (h : units.IsFraction) (ht : t ∈ units) :
    t.isPresent = !t.isReciprocal := by
  cases hr : t.isReciprocal with
  | true => simp [Term.isPresent, hr]
  | false => simp [Term.isPresent, hr, h.normal.present t ht hr]

/-- A present term is in the numerator when it stands above the slash. -/
theorem inNumerator_eq (t : Term) : t.inNumerator = (t.isPresent && isAbove t) := by
  cases hr : t.isReciprocal <;> simp [Term.inNumerator, Term.isPresent, isAbove, hr, Bool.and_comm]

/-- Above the slash stands a term, since the marker stands there when nothing else does. -/
theorem IsFraction.above_ne_nil (h : units.IsFraction) : units.above ≠ [] := by
  have hm := h.normal.markers
  intro hnil
  have hall : ∀ t ∈ units, ¬ isAbove t = true := List.filter_eq_nil_iff.mp hnil
  have hnone : units.any Term.inNumerator = false := by
    rw [List.any_eq_false]
    intro t ht
    simp [inNumerator_eq, hall t ht]
  rw [hnone, if_neg Bool.false_ne_true] at hm
  have hmarker : Term.marker ∈ units.filter Term.isReciprocal := by simp [hm]
  exact hall _ (List.mem_filter.mp hmarker).1 isAbove_marker

/-- The factors above the slash are those of the terms above, also when this is the marker. -/
theorem IsFraction.numerator_eq (h : units.IsFraction) :
    units.numerator = units.above.map unsignedFactor := by
  have hm := h.normal.markers
  have hfactors : (units.filter fun t => t.isPresent && isAbove t) =
      units.filter Term.inNumerator :=
    List.filter_congr fun t _ => (inNumerator_eq t).symm
  rw [numerator, hfactors]
  cases hn : units.any Term.inNumerator with
  | true =>
    -- Beside a numerator there is no marker, so being above the slash is being in the numerator.
    rw [hn, if_pos rfl, List.filter_eq_nil_iff] at hm
    have hnone : (units.any fun t => t.isReciprocal && !t.vanishes) = false := by
      rw [List.any_eq_false]
      intro t ht
      simp [hm t ht]
    have habove : units.filter Term.inNumerator = units.above := by
      refine List.filter_congr fun t ht => ?_
      rw [inNumerator_eq, h.isPresent_eq ht]
      simp [hm t ht]
    rw [hnone, Bool.and_false, if_neg Bool.false_ne_true, habove]
  | false =>
    -- Without a numerator the marker alone stands above the slash.
    rw [hn, if_neg Bool.false_ne_true] at hm
    rw [List.any_eq_false] at hn
    have hnil : units.filter Term.inNumerator = [] := List.filter_eq_nil_iff.mpr hn
    have habove : units.above = units.filter Term.isReciprocal := by
      refine List.filter_congr fun t ht => ?_
      cases hr : t.isReciprocal with
      | true =>
        rw [h.normal.eq_marker ht ((Term.isReciprocal_iff t).mp hr)]
        exact isAbove_marker
      | false =>
        have ht' := hn t ht
        rw [inNumerator_eq, h.isPresent_eq ht, hr] at ht'
        simpa using ht'
    have hmarker : (units.any fun t => t.isReciprocal && !t.vanishes) = true := by
      have hmem : Term.marker ∈ units.filter Term.isReciprocal := by simp [hm]
      exact List.any_eq_true.mpr ⟨.marker, (List.mem_filter.mp hmem).1, by decide +kernel⟩
    rw [hnil, hmarker, habove, hm]
    decide +kernel

/-- The factors below the slash are those of the terms below. -/
theorem IsFraction.denominator_eq (h : units.IsFraction) :
    units.denominator = units.below.map unsignedFactor := by
  have hbelow : (units.filter fun t => t.isPresent && !isAbove t) = units.below := by
    refine List.filter_congr fun t ht => ?_
    rw [h.isPresent_eq ht]
    cases hr : t.isReciprocal with
    | true =>
      rw [h.normal.eq_marker ht ((Term.isReciprocal_iff t).mp hr), isAbove_marker]
      rfl
    | false => rfl
  rw [denominator, hbelow]

/-! ## The factors -/

/-- Above the slash no sign is dropped. -/
theorem IsFraction.unsignedFactor_above (h : units.IsFraction) (ht : t ∈ units.above) :
    unsignedFactor t = signedFactor t := by
  obtain ⟨hmem, habove⟩ := List.mem_filter.mp ht
  by_cases hd : t.dimension = .reciprocal
  · rw [h.normal.eq_marker hmem hd]
    decide +kernel
  · obtain ⟨z, hz, hne, hsmall, hsign⟩ := h.exists_int hmem hd
    have hpos : 0 < z := by simpa [hsign] using habove
    rw [unsignedFactor_eq hd hz hne (by omega), signedFactor_eq hd hz (by omega),
      Int.natAbs_of_nonneg hpos.le]

theorem IsFraction.isFactorChar_above (h : units.IsFraction) (ht : t ∈ units.above) {c : Char}
    (hc : c ∈ (unsignedFactor t).toList) : isFactorChar c = true := by
  rw [h.unsignedFactor_above ht] at hc
  exact isFactorChar_of_mem (h.isWritable (mem_of_mem_above ht)) hc

theorem IsFraction.isFactorChar_below (h : units.IsFraction) (ht : t ∈ units.below) {c : Char}
    (hc : c ∈ (unsignedFactor t).toList) : isFactorChar c = true := by
  have hd := h.dimension_ne ht
  obtain ⟨z, hz, hne, hsmall, _⟩ := h.exists_int (mem_of_mem_below ht) hd
  rw [unsignedFactor_eq hd hz hne (by omega), String.toList_append, List.mem_append] at hc
  exact hc.elim (isFactorChar_of_mem_spelling hd) isFactorChar_of_mem_wholeMark

/-- The two sides as texts. -/
theorem IsFraction.toList_fractional (h : units.IsFraction) :
    units.fractional.toList =
      (Text.join "*" (units.above.map unsignedFactor)).toList ++
        '/' :: (Text.join "*" (units.below.map unsignedFactor)).toList := by
  rw [fractional, h.numerator_eq, h.denominator_eq, String.toList_append, String.toList_append,
    List.append_assoc]
  rfl

theorem IsFraction.slash_notMem_above (h : units.IsFraction) :
    '/' ∉ (Text.join "*" (units.above.map unsignedFactor)).toList :=
  Expression.slash_notMem_join fun _ ht _ => h.isFactorChar_above ht

theorem IsFraction.slash_notMem_below (h : units.IsFraction) :
    '/' ∉ (Text.join "*" (units.below.map unsignedFactor)).toList :=
  Expression.slash_notMem_join fun _ ht _ => h.isFactorChar_below ht

/-! ## Reading -/

/-- Below the slash, the factor of a term is read as that term: the exponent gets its sign back. -/
theorem IsFraction.itemTerm_below {symbols : Symbols} (hs : symbols.ReadsBases)
    (h : units.IsFraction) (ht : t ∈ units.below) :
    Expression.itemTerm symbols true (unsignedFactor t).toList = .ok t := by
  have hd := h.dimension_ne ht
  obtain ⟨hmem, hbelow⟩ := List.mem_filter.mp ht
  obtain ⟨z, hz, hne, hsmall, hsign⟩ := h.exists_int hmem hd
  have hneg : -(z.natAbs : Int) = z := by
    have hpos : ¬ 0 < z := by simpa [hsign] using hbelow
    omega
  have hrange : Expression.inExponentRange z.natAbs = true := by
    rw [Expression.inExponentRange, Bool.and_eq_true, decide_eq_true_eq, decide_eq_true_eq]
    omega
  rw [unsignedFactor_eq hd hz hne (by omega),
    Expression.itemTerm_factor hs true hd t.siPrefix hrange, if_pos rfl, hneg, ← hz]

theorem IsFraction.sideTerms_above {symbols : Symbols} (hs : symbols.ReadsBases)
    (h : units.IsFraction) :
    Expression.sideTerms symbols false
      (Text.join "*" (units.above.map unsignedFactor)).toList = .ok units.above := by
  have hread : ∀ t ∈ units.above,
      Expression.itemTerm symbols false (unsignedFactor t).toList = .ok (id t) := by
    intro t ht
    rw [h.unsignedFactor_above ht]
    exact Expression.itemTerm_signedFactor hs (h.isWritable (mem_of_mem_above ht))
  rw [Expression.sideTerms_join h.above_ne_nil (fun _ ht _ => h.isFactorChar_above ht) hread,
    List.map_id]

theorem IsFraction.sideTerms_below {symbols : Symbols} (hs : symbols.ReadsBases)
    (h : units.IsFraction) (hne : units.below ≠ []) :
    Expression.sideTerms symbols true
      (Text.join "*" (units.below.map unsignedFactor)).toList = .ok units.below := by
  have hread : ∀ t ∈ units.below,
      Expression.itemTerm symbols true (unsignedFactor t).toList = .ok (id t) :=
    fun t ht => h.itemTerm_below hs ht
  rw [Expression.sideTerms_join hne (fun _ ht _ => h.isFactorChar_below ht) hread, List.map_id]

/-- What is read of the fractional notation is settled by its denominator. -/
theorem IsFraction.parse_fractional_eq {symbols : Symbols} (hs : symbols.ReadsBases)
    (h : units.IsFraction) :
    symbols.parse units.fractional =
      (Expression.sideTerms symbols true
        (Text.join "*" (units.below.map unsignedFactor)).toList).map (units.above ++ ·) := by
  rw [Expression.parse_eq_of_slash h.toList_fractional
    (fun _ => Expression.isGrouping_of_mem_join fun _ ht _ => h.isFactorChar_above ht)
    (fun _ => Expression.isGrouping_of_mem_join fun _ ht _ => h.isFactorChar_below ht)
    h.slash_notMem_above h.slash_notMem_below, h.sideTerms_above hs]
  rfl

/-- With a denominator, the terms are read back, those from above the slash first. -/
theorem IsFraction.parse_fractional_of_below {symbols : Symbols} (hs : symbols.ReadsBases)
    (h : units.IsFraction) (hne : units.below ≠ []) :
    symbols.parse units.fractional = .ok (units.above ++ units.below) := by
  rw [h.parse_fractional_eq hs, h.sideTerms_below hs hne]
  rfl

/-- Without a denominator, the slash is followed by an empty item. -/
theorem IsFraction.parse_fractional_of_below_eq_nil {symbols : Symbols}
    (hs : symbols.ReadsBases) (h : units.IsFraction) (hnil : units.below = []) :
    symbols.parse units.fractional = .error .emptyTerm := by
  rw [h.parse_fractional_eq hs, hnil]
  rfl

/-! ## The shape of the text -/

theorem IsFraction.count_slash (h : units.IsFraction) : units.fractional.toList.count '/' = 1 := by
  rw [h.toList_fractional, List.count_append, List.count_cons_self,
    List.count_eq_zero.mpr h.slash_notMem_above, List.count_eq_zero.mpr h.slash_notMem_below]

/-- Something stands before the slash: an empty text would not be read as the terms above. -/
theorem IsFraction.before_slash_ne_nil (h : units.IsFraction) :
    Text.before '/' units.fractional.toList ≠ [] := by
  intro hnil
  rw [h.toList_fractional, Text.before_append h.slash_notMem_above] at hnil
  have hread := h.sideTerms_above readsBases_builtin
  rw [hnil] at hread
  cases hread

/-! ## What is read back -/

theorem Normal.of_perm {units' : Units} (h : units.Normal) (hperm : units.Perm units') :
    units'.Normal where
  nonempty := fun hnil => h.nonempty (by simpa [hnil] using hperm)
  distinct := (hperm.map Term.dimension).nodup_iff.mp h.distinct
  present := fun t ht => h.present t (hperm.mem_iff.mpr ht)
  markers := by
    have hm := hperm.filter Term.isReciprocal
    rw [h.markers, hperm.any_eq] at hm
    split at hm
    · next hn =>
      rw [if_pos hn]
      exact hm.nil_eq.symm
    · next hn =>
      rw [if_neg hn]
      exact (List.singleton_perm.mp hm).symm

/-- A term with a whole exponent agrees with itself. -/
theorem agrees_self_of_isWritable (ht : t.IsWritable) : t.agrees t = true := by
  refine agrees_iff.mpr ⟨rfl, ?_⟩
  rcases ht with rfl | ⟨_, hlegible, _⟩
  · exact (holds_one.close_eq holds_one).trans (decide_eq_true rfl)
  · exact (hlegible.whole.close_eq hlegible.whole).trans (decide_eq_true rfl)

/-- In another order, normal units with whole exponents have the same dimensions. -/
theorem IsFraction.sameDimensions_of_perm {units' : Units} (h : units.IsFraction)
    (hperm : units'.Perm units) : sameDimensions units'.normalize units = true := by
  rw [normalize_of_normal (h.normal.of_perm hperm.symm), sameDimensions_iff_forall]
  exact ⟨hperm.length_eq, fun t ht =>
    ⟨t, hperm.mem_iff.mpr ht, agrees_self_of_isWritable (h.isWritable ht)⟩⟩

/-- **Fractional notation round-trips exactly when there is a denominator.** Let units be normal,
with whole base exponents of 31 bits and a sign. Their fractional notation has one slash and
something before it. If a term stands below the slash, the notation is read back as the terms from
above and then those from below, each group in its order and with its exponents and prefixes, and
these have the same dimensions again once they are normalized. If none does, what follows the slash
is an empty item, and the notation is no expression. -/
theorem parse_fractional (units : Units) (h : units.IsFraction) :
    units.fractional.toList.count '/' = 1 ∧
      Text.before '/' units.fractional.toList ≠ [] ∧
      (units.below ≠ [] →
        Units.parse units.fractional = .ok (units.above ++ units.below) ∧
          sameDimensions (normalize (units.above ++ units.below)) units = true) ∧
      (units.below = [] → Units.parse units.fractional = .error .emptyTerm) := by
  refine ⟨h.count_slash, h.before_slash_ne_nil, fun hne => ⟨?_, ?_⟩, fun hnil => ?_⟩
  · exact h.parse_fractional_of_below readsBases_builtin hne
  · exact h.sameDimensions_of_perm (above_append_below_perm units)
  · exact h.parse_fractional_of_below_eq_nil readsBases_builtin hnil

/-- A unit of negative exponents only, the least one among them, comes back with its marker ahead; a
length alone does not come back. -/
theorem parse_fractional_rate :
    let rate : Units := normalize [⟨.time, -2147483647, some .milli⟩, ⟨.length, -2, some .deca⟩]
    let length : Units := normalize [⟨.length, 1, some .kilo⟩]
    rate.IsFraction ∧ length.IsFraction ∧
      Units.parse rate.fractional =
        .ok [.marker, ⟨.time, -2147483647, some .milli⟩, ⟨.length, -2, some .deca⟩] ∧
      Units.parse length.fractional = .error .emptyTerm := by
  intro rate length
  have hrate : rate.IsFraction :=
    ⟨normal_normalize _, by decide +kernel, by decide +kernel⟩
  have hlength : length.IsFraction :=
    ⟨normal_normalize _, by decide +kernel, by decide +kernel⟩
  obtain ⟨_, _, hread, _⟩ := parse_fractional rate hrate
  obtain ⟨_, _, _, hrefused⟩ := parse_fractional length hlength
  have hsides : rate.above ++ rate.below =
      [.marker, ⟨.time, -2147483647, some .milli⟩, ⟨.length, -2, some .deca⟩] := by
    decide +kernel
  rw [hsides] at hread
  exact ⟨hrate, hlength, (hread (by decide +kernel)).1, hrefused (by decide +kernel)⟩

end

end Units

end Metrology
