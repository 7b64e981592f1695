import Mathlib
import Metrology.Proofs.Binary64.Whole
import Metrology.Proofs.Symbols
import Metrology.Proofs.Text
import Metrology.Proofs.Units.Normal
import Metrology.Units.Notation

/-!
# Metrology.Proofs.Units.Notation -- how units with whole exponents are written

A whole exponent is written in decimal digits, and not at all when it is one (`mark_ofInt`). So a
factor is a word for a base dimension with such a mark behind it (`signedFactor_eq`), or the lone
`1` of the marker. *Legible* exponents are the whole numbers of 32 bits with their sign. *Writable*
terms are those whose factor says all about them: the marker itself, and base dimensions whose
exponent is legible and not zero.

A factor has letters, digits, the caret and the minus in it, and nothing that an expression is cut
at or trimmed of (`isFactorChar_of_mem`).
-/

namespace Metrology

open Binary64 Symbols

namespace Exponent

/-! ## Whole exponents -/

theorem text_ofInt {z : Int} (hz : z.natAbs ≤ 2 ^ 53) : text (ofInt z) = Text.ofInt z := by
  have h : (ofInt z).Holds z := holds_ofInt hz
  have hclose : close (ofInt z) (ofInt z) = true := by
    rw [h.close_eq h]
    exact decide_eq_true rfl
  rw [text, h.roundAway_eq, hclose, if_pos rfl, h.toInt_eq]

/-- The mark of a whole exponent. -/
def wholeMark (z : Int) : String := if z = 1 then "" else "^" ++ Text.ofInt z

theorem mark_ofInt {z : Int} (hz : z.natAbs ≤ 2 ^ 53) : mark (ofInt z) = wholeMark z := by
  have hclose : close (ofInt z) 1 = decide (z = 1) := (holds_ofInt hz).close_eq holds_one
  rw [mark, hclose, text_ofInt hz, wholeMark]
  simp

/-- Whether an exponent is a whole number of 32 bits, sign included. -/
structure IsLegible (x : Binary64) : Prop where
  whole : x.IsWhole
  lower : -2 ^ 31 ≤ x.toInt
  upper : x.toInt ≤ 2 ^ 31 - 1

instance (x : Binary64) : Decidable (IsLegible x) :=
  decidable_of_iff (x.IsWhole ∧ -2 ^ 31 ≤ x.toInt ∧ x.toInt ≤ 2 ^ 31 - 1)
    ⟨fun h => ⟨h.1, h.2.1, h.2.2⟩, fun h => ⟨h.whole, h.lower, h.upper⟩⟩

end Exponent

/-! ## Writable terms -/

namespace Term

/-- Whether a term can be told from its factor. -/
def IsWritable (t : Term) : Prop :=
  t = .marker ∨
    t.dimension ≠ .reciprocal ∧ Exponent.IsLegible t.exponent ∧ t.exponent.toInt ≠ 0

instance (t : Term) : Decidable t.IsWritable := inferInstanceAs (Decidable (_ ∨ _))

/-- A writable term other than the marker is settled by its dimension, its prefix and a whole
number. -/
theorem IsWritable.cases {t : Term} (h : t.IsWritable) :
    t = .marker ∨
      t.dimension ≠ .reciprocal ∧
        ∃ z : Int, t.exponent = ofInt z ∧ z ≠ 0 ∧ -2 ^ 31 ≤ z ∧ z ≤ 2 ^ 31 - 1 := by
  rcases h with hmarker | ⟨hd, hlegible, hzero⟩
  · exact .inl hmarker
  · -- Zero is left out, so the sign of the number does not matter.
    have hz : t.exponent = ofInt t.exponent.toInt := hlegible.whole.eq_ofInt hzero
    exact .inr ⟨hd, t.exponent.toInt, hz, hzero, hlegible.lower, hlegible.upper⟩

theorem symbol_eq_spelling {t : Term} (h : t.dimension ≠ .reciprocal) :
    t.symbol = spelling t.dimension t.siPrefix := by
  rw [symbol, (isReciprocal_eq_false_iff t).mpr h, if_neg Bool.false_ne_true]
  rfl

end Term

namespace Units

theorem signedFactor_marker : signedFactor .marker = "1" := by decide +kernel

theorem signedFactor_eq {t : Term} (hd : t.dimension ≠ .reciprocal) {z : Int}
    (ht : t.exponent = ofInt z) (hz : z.natAbs ≤ 2 ^ 53) :
    signedFactor t = spelling t.dimension t.siPrefix ++ Exponent.wholeMark z := by
  rw [signedFactor, Term.symbol_eq_spelling hd, ht, Exponent.mark_ofInt hz]

theorem unsignedFactor_eq {t : Term} (hd : t.dimension ≠ .reciprocal) {z : Int}
    (ht : t.exponent = ofInt z) (hne : z ≠ 0) (hz : z.natAbs ≤ 2 ^ 53) :
    unsignedFactor t = spelling t.dimension t.siPrefix ++ Exponent.wholeMark z.natAbs := by
  have habs : t.exponent.abs = ofInt z.natAbs := by
    rw [ht]
    exact (holds_ofInt hz).abs.eq_ofInt (by omega)
  rw [unsignedFactor, Term.symbol_eq_spelling hd, habs, Exponent.mark_ofInt (by omega)]

/-- A base dimension stands above the slash when its exponent is positive. -/
theorem isAbove_eq {t : Term} {z : Int} (ht : t.exponent = ofInt z) (hz : z.natAbs ≤ 2 ^ 53) :
    isAbove t = decide (0 < z) := by
  rw [isAbove, ht, holds_zero.less_eq (holds_ofInt hz)]

/-- A writable term is not left out. -/
theorem vanishes_of_isWritable {t : Term} (h : t.IsWritable) : t.vanishes = false := by
  rcases h.cases with rfl | ⟨_, z, ht, hne, hlow, hhigh⟩
  · exact holds_one.vanishes_eq
  · have hz : (ofInt z).Holds z := holds_ofInt (show z.natAbs ≤ 2 ^ 53 by omega)
    rw [Term.vanishes, ht, hz.vanishes_eq]
    exact decide_eq_false hne

/-- The terms of a normal unit are writable when their exponents are legible. -/
theorem isWritable_of_normal {units : Units} (h : units.Normal)
    (hlegible : ∀ t ∈ units, t.isReciprocal = false → Exponent.IsLegible t.exponent)
    {t : Term} (ht : t ∈ units) : t.IsWritable := by
  by_cases hd : t.dimension = .reciprocal
  · exact .inl (h.eq_marker ht hd)
  · have hr : t.isReciprocal = false := (Term.isReciprocal_eq_false_iff t).mpr hd
    have hl : Exponent.IsLegible t.exponent := hlegible t ht hr
    have hpresent : Exponent.vanishes t.exponent = false := h.present t ht hr
    rw [Holds.vanishes_eq hl.whole] at hpresent
    exact .inr ⟨hd, hl, of_decide_eq_false hpresent⟩

theorem exponential_of_isWritable {units : Units} (h : ∀ t ∈ units, t.IsWritable) :
    units.exponential = Text.join "*" (units.map signedFactor) := by
  rw [exponential, List.filter_eq_self.mpr]
  intro t ht
  rw [vanishes_of_isWritable (h t ht)]
  rfl

/-! ## The characters of a factor -/

/-- The characters that factors are made of. -/
def isFactorChar (c : Char) : Bool := c.isAlphanum || c = '^' || c = '-'

theorem isFactorChar_of_isDigit {c : Char} (h : c.isDigit = true) : isFactorChar c = true := by
  simp [isFactorChar, Char.isAlphanum, h]

theorem isFactorChar_of_isAlpha {c : Char} (h : c.isAlpha = true) : isFactorChar c = true := by
  simp [isFactorChar, Char.isAlphanum, h]

theorem isFactorChar_of_mem_spelling {d : Dimension} (hd : d ≠ .reciprocal) {p : Option Prefix}
    {c : Char} (h : c ∈ (spelling d p).toList) : isFactorChar c = true :=
  isFactorChar_of_isAlpha (isAlpha_of_mem_spelling hd h)

theorem isFactorChar_of_mem_wholeMark {z : Int} {c : Char}
    (h : c ∈ (Exponent.wholeMark z).toList) : isFactorChar c = true := by
  unfold Exponent.wholeMark at h
  split at h
  · exact absurd h List.not_mem_nil
  · rw [String.toList_append, Text.toList_ofInt, List.mem_append, List.mem_append] at h
    -- The caret, the sign if there is one, or a digit.
    rcases h with h | h | h
    · rw [List.mem_singleton.mp (show c ∈ ['^'] from h)]
      rfl
    · split at h
      · rw [List.mem_singleton.mp h]
        rfl
      · exact absurd h List.not_mem_nil
    · exact isFactorChar_of_isDigit (Text.isDigit_of_mem_toDigits h)

/-- A factor is made of the characters of factors. -/
theorem isFactorChar_of_mem {t : Term} (ht : t.IsWritable) {c : Char}
    (h : c ∈ (signedFactor t).toList) : isFactorChar c = true := by
  rcases ht.cases with rfl | ⟨hd, z, hz, _, hlow, hhigh⟩
  · rw [signedFactor_marker] at h
    rw [List.mem_singleton.mp (show c ∈ ['1'] from h)]
    rfl
  · rw [signedFactor_eq hd hz (by omega), String.toList_append, List.mem_append] at h
    rcases h with h | h
    · exact isFactorChar_of_mem_spelling hd h
    · exact isFactorChar_of_mem_wholeMark h

/-- Joined factors have only their own characters and the asterisk in them. -/
theorem mem_join_factors {units : Units} {factor : Term → String}
    (h : ∀ t ∈ units, ∀ c ∈ (factor t).toList, isFactorChar c = true) {c : Char}
    (hc : c ∈ (Text.join "*" (units.map factor)).toList) : c = '*' ∨ isFactorChar c = true := by
  rcases Text.mem_toList_join hc with hmark | ⟨part, hpart, hc⟩
  · exact .inl (List.mem_singleton.mp (show c ∈ ['*'] from hmark))
  · obtain ⟨t, ht, rfl⟩ := List.mem_map.mp hpart
    exact .inr (h t ht c hc)

theorem isBlank_of_isFactorChar {c : Char} (h : isFactorChar c = true) :
    Text.isBlank c = false := by
  rw [← Bool.not_eq_true]
  intro hc
  simp only [Text.isBlank, Bool.or_eq_true, decide_eq_true_eq] at hc
  rcases hc with ((rfl | rfl) | rfl) | rfl <;> exact absurd h (by decide)

end Units

end Metrology
