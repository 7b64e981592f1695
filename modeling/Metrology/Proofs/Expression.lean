import Mathlib
import Metrology.Expression
import Metrology.Proofs.Units.Notation

/-!
# Metrology.Proofs.Expression -- reading units back from their factors

What is read of a factor is what was written. The exponent comes back from its digits
(`exponent_ofInt`) or from their absence, and the dimension and the prefix come back whenever the
symbols read the bases (`itemTerm_factor`). Above the slash every factor of a writable term gives
that term (`itemTerm_signedFactor`).

A list of factors is cut where it was joined, since no factor contains an asterisk or a slash, and
nothing in it is a bracket or a blank. So the exponential notation of writable terms reads back term
for term (`parse_exponential`).
-/

namespace Metrology

open Binary64 Symbols Metrology.Units

namespace Expression

/-! ## Exponents -/

/-- A whole number of 32 bits is read from its digits. -/
theorem exponent_ofInt (item : List Char) {z : Int} (hz : inExponentRange z = true) :
    exponent item (Text.ofInt z).toList = .ok z := by
  -- What the reader tests is met: no second caret, something written, digits behind the sign.
  have hcaret : (Text.ofInt z).toList.contains '^' = false := by
    rw [← Bool.not_eq_true, List.contains_iff_mem, Text.toList_ofInt, List.mem_append]
    rintro (h | h)
    · split at h
      · exact absurd (List.mem_singleton.mp h) (by decide)
      · exact absurd h List.not_mem_nil
    · exact absurd (Text.isDigit_of_mem_toDigits h) (by decide)
  have hdigits : Nat.toDigits 10 z.natAbs ≠ [] := Nat.toDigits_ne_nil
  have hempty : (Text.ofInt z).toList.isEmpty = false := by
    rw [Text.toList_ofInt]
    simp [hdigits]
  have hall : (Nat.toDigits 10 z.natAbs).all Char.isDigit = true :=
    List.all_eq_true.mpr fun c hc => Text.isDigit_of_mem_toDigits hc
  -- The size with the sign is the number again.
  have hsize : (if decide (z < 0) = true then -(z.natAbs : Int) else z.natAbs) = z := by
    by_cases hneg : z < 0
    · rw [if_pos (decide_eq_true hneg)]
      omega
    · rw [decide_eq_false hneg, if_neg Bool.false_ne_true]
      omega
  simp only [exponent, hcaret, hempty, Text.readSign_ofInt, Text.digitsValue_toDigits, hall, hsize,
    hz]
  simp [hdigits]

/-- A word without a caret is cut off the mark behind it, and the mark is read. -/
theorem symbolAndExponent_wholeMark {word : List Char} (hword : '^' ∉ word) {z : Int}
    (hz : inExponentRange z = true) :
    symbolAndExponent (word ++ (Exponent.wholeMark z).toList) =
      .ok (word, if z = 1 then none else some z) := by
  by_cases hone : z = 1
  · rw [Exponent.wholeMark, if_pos hone, if_pos hone, String.toList_empty, List.append_nil,
      symbolAndExponent, Text.cutAt?_of_notMem hword]
  · have hmark : (Exponent.wholeMark z).toList = '^' :: (Text.ofInt z).toList := by
      rw [Exponent.wholeMark, if_neg hone, String.toList_append]
      rfl
    rw [hmark, if_neg hone, symbolAndExponent, Text.cutAt?_append hword]
    show (exponent _ (Text.ofInt z).toList).map _ = _
    rw [exponent_ofInt _ hz]
    rfl

/-! ## Items -/

/-- A factor of a base dimension is read as what it says, with the exponent turned around below the
slash. -/
theorem itemTerm_factor {symbols : Symbols} (h : symbols.ReadsBases) (inDenominator : Bool)
    {d : Dimension} (hd : d ≠ .reciprocal) (p : Option Prefix) {z : Int}
    (hz : inExponentRange z = true) :
    itemTerm symbols inDenominator (spelling d p ++ Exponent.wholeMark z).toList =
      .ok ⟨d, ofInt (if inDenominator then -z else z), p⟩ := by
  -- A word of letters has no caret in it, is not the lone one, and is not empty.
  have halpha := isAlphabetic_spelling hd p
  have hcaret : '^' ∉ (spelling d p).toList :=
    fun hmem => absurd (isAlpha_of_mem_spelling hd hmem) (by decide)
  have hone : (spelling d p).toList ≠ ['1'] := by
    intro heq
    rw [heq] at halpha
    exact absurd halpha (by decide)
  have hempty : ((spelling d p).toList ++ (Exponent.wholeMark z).toList).isEmpty = false := by
    simp only [Text.isAlphabetic, Bool.and_eq_true, Bool.not_eq_true'] at halpha
    simp [List.isEmpty_eq_false_iff.mp halpha.1]
  have hexponent : (if z = 1 then none else some z).getD 1 = z := by
    by_cases h1 : z = 1
    · rw [if_pos h1, h1]
      rfl
    · rw [if_neg h1]
      rfl
  -- Each test that stands before the symbol table is passed in turn.
  rw [String.toList_append, itemTerm, hempty, if_neg Bool.false_ne_true,
    symbolAndExponent_wholeMark hcaret hz]
  show (if (spelling d p).toList = ['1'] then _ else _) = _
  rw [if_neg hone, halpha, hexponent, String.ofList_toList]
  show symbolTerm symbols (spelling d p) _ = _
  rw [symbolTerm, h.separate? hd p]
  show (symbols.dimensionOf d.symbol).map _ = _
  rw [h.dimensionOf hd]
  rfl

/-- Above the slash, the factor of a writable term is read as that term. -/
theorem itemTerm_signedFactor {symbols : Symbols} (h : symbols.ReadsBases) {t : Term}
    (ht : t.IsWritable) : itemTerm symbols false (signedFactor t).toList = .ok t := by
  rcases ht.cases with rfl | ⟨hd, z, hz, _, hlow, hhigh⟩
  · rw [signedFactor_marker]
    rfl
  · have hrange : inExponentRange z = true := by
      rw [inExponentRange, Bool.and_eq_true, decide_eq_true_eq, decide_eq_true_eq]
      omega
    rw [signedFactor_eq hd hz (by omega), itemTerm_factor h false hd t.siPrefix hrange,
      if_neg Bool.false_ne_true, ← hz]

/-- Items that are each read as a term are read as the list of these terms. -/
theorem itemTerms_map {symbols : Symbols} {inDenominator : Bool} {units : Units}
    {text : Term → List Char} {read : Term → Term}
    (h : ∀ t ∈ units, itemTerm symbols inDenominator (Text.trim (text t)) = .ok (read t)) :
    itemTerms symbols inDenominator (units.map text) = .ok (units.map read) := by
  induction units with
  | nil => rfl
  | cons t ts ih =>
    have hrest := ih fun u hu => h u (List.mem_cons_of_mem _ hu)
    rw [List.map_cons, List.map_cons, itemTerms, h t List.mem_cons_self, hrest]
    rfl

/-! ## Whole expressions -/

theorem isGrouping_of_isFactorChar {c : Char} (h : isFactorChar c = true) :
    isGrouping c = false := by
  rw [← Bool.not_eq_true]
  intro hc
  simp only [isGrouping, Bool.or_eq_true, decide_eq_true_eq] at hc
  rcases hc with ((((rfl | rfl) | rfl) | rfl) | rfl) | rfl <;> exact absurd h (by decide)

/-- Factors joined by asterisks are read one by one. -/
theorem sideTerms_join {symbols : Symbols} {inDenominator : Bool} {units : Units}
    (hne : units ≠ []) {factor : Term → String} {read : Term → Term}
    (hchars : ∀ t ∈ units, ∀ c ∈ (factor t).toList, isFactorChar c = true)
    (h : ∀ t ∈ units, itemTerm symbols inDenominator (factor t).toList = .ok (read t)) :
    sideTerms symbols inDenominator (Text.join "*" (units.map factor)).toList =
      .ok (units.map read) := by
  have hcut : Text.separated '*' (Text.join "*" (units.map factor)).toList =
      units.map fun t => (factor t).toList := by
    show Text.separated '*' (Text.join (.ofList ['*']) (units.map factor)).toList = _
    rw [Text.separated_join, List.map_map]
    · rfl
    · exact fun hnil => hne (List.map_eq_nil_iff.mp hnil)
    · intro part hpart hmem
      obtain ⟨t, ht, rfl⟩ := List.mem_map.mp hpart
      exact absurd (hchars t ht _ hmem) (by decide)
  rw [sideTerms, hcut]
  apply itemTerms_map
  intro t ht
  rw [Text.trim_of_forall fun c hc => isBlank_of_isFactorChar (hchars t ht c hc)]
  exact h t ht

/-- Joined factors hold no bracket. -/
theorem isGrouping_of_mem_join {units : Units} {factor : Term → String}
    (h : ∀ t ∈ units, ∀ c ∈ (factor t).toList, isFactorChar c = true) {c : Char}
    (hc : c ∈ (Text.join "*" (units.map factor)).toList) : isGrouping c = false := by
  rcases mem_join_factors h hc with rfl | hfactor
  · rfl
  · exact isGrouping_of_isFactorChar hfactor

/-- Joined factors hold no slash. -/
theorem slash_notMem_join {units : Units} {factor : Term → String}
    (h : ∀ t ∈ units, ∀ c ∈ (factor t).toList, isFactorChar c = true) :
    '/' ∉ (Text.join "*" (units.map factor)).toList := by
  intro hmem
  rcases mem_join_factors h hmem with heq | hfactor
  · exact absurd heq (by decide)
  · exact absurd hfactor (by decide)

/-- A text without brackets is read as it stands. -/
theorem filter_isGrouping_of_forall {text : List Char} (h : ∀ c ∈ text, isGrouping c = false) :
    (text.filter fun c => !isGrouping c) = text := by
  rw [List.filter_eq_self]
  intro c hc
  rw [h c hc]
  rfl

/-- A text without brackets and slashes is all numerator. -/
theorem parse_eq_sideTerms {symbols : Symbols} {text : String}
    (hbrackets : ∀ c ∈ text.toList, isGrouping c = false) (hslash : '/' ∉ text.toList) :
    symbols.parse text = sideTerms symbols false text.toList := by
  rw [Symbols.parse, filter_isGrouping_of_forall hbrackets, Text.separated_of_notMem hslash]

/-- A text without brackets and with one slash is a numerator and a denominator. -/
theorem parse_eq_of_slash {symbols : Symbols} {text : String} {front back : List Char}
    (htext : text.toList = front ++ '/' :: back) (hfront : ∀ c ∈ front, isGrouping c = false)
    (hback : ∀ c ∈ back, isGrouping c = false) (hslash : '/' ∉ front) (hslash' : '/' ∉ back) :
    symbols.parse text =
      (sideTerms symbols false front >>= fun top =>
        (sideTerms symbols true back).map (top ++ ·)) := by
  have hbrackets : ∀ c ∈ text.toList, isGrouping c = false := by
    intro c hc
    rw [htext, List.mem_append, List.mem_cons] at hc
    rcases hc with hc | rfl | hc
    · exact hfront c hc
    · rfl
    · exact hback c hc
  rw [Symbols.parse, filter_isGrouping_of_forall hbrackets, htext, Text.separated_append hslash,
    Text.separated_of_notMem hslash']
  dsimp only
  cases sideTerms symbols false front with
  | error e => rfl
  | ok top => rfl

end Expression

open Expression

/-- The exponential notation of writable terms is read back as these terms, in order. -/
theorem Symbols.ReadsBases.parse_exponential {symbols : Symbols} (h : symbols.ReadsBases)
    {units : Units} (hne : units ≠ []) (hunits : ∀ t ∈ units, t.IsWritable) :
    symbols.parse units.exponential = .ok units := by
  have hchars : ∀ t ∈ units, ∀ c ∈ (signedFactor t).toList, isFactorChar c = true :=
    fun t ht _ hc => isFactorChar_of_mem (hunits t ht) hc
  have hside : sideTerms symbols false (Text.join "*" (units.map signedFactor)).toList =
      .ok (units.map id) :=
    sideTerms_join hne hchars fun t ht => itemTerm_signedFactor h (hunits t ht)
  rw [exponential_of_isWritable hunits,
    parse_eq_sideTerms (fun _ hc => isGrouping_of_mem_join hchars hc) (slash_notMem_join hchars),
    hside, List.map_id]

end Metrology
