import Mathlib
import Metrology.Binary64.Arithmetic
import Metrology.Binary64.Numeral
import Metrology.Proofs.Binary64.Whole

/-!
# Metrology.Proofs.Binary64.Numeral -- which number texts stand for infinity

A decimal numeral says its digits times a power of ten, exactly, when its exponent is not far off
(`Binary64.decimalRatio_eq`); a whole number of 53 bits is in range (`inRange_whole`).

Digits that are in range stand for a finite number, since rounding to infinity is out of range
(`isFinite_value`). So an infinite value comes from a word only. Of the ways to read a text only the
one for words gives an infinity, and what it needs is told of the text itself
(`read?_eq_infinite_iff`): white space, a sign, and `inf` or `infinity` in any case, with nothing
after it.
-/

namespace Metrology

theorem Binary64.isFinite_ofRatio_iff {s : Bool} {n d : Nat} :
    (ofRatio s n d).isFinite = true ↔ Magnitude.nearest n d < Magnitude.limit := by
  unfold ofRatio
  split
  · next h => exact iff_of_true rfl h
  · next h => exact iff_of_false Bool.false_ne_true h

theorem Binary64.zero_less_infinite : (0 : Binary64).less (.infinite false) = true := by
  have hlimit : 0 < Magnitude.limit := Magnitude.two_pow_le_limit (Nat.zero_le _)
  rw [zero_eq]
  exact decide_eq_true (Int.natCast_pos.mpr hlimit)

/-- With an exponent that is not far off, a decimal numeral says just its digits and its exponent. -/
theorem Binary64.decimalRatio_eq (k : Nat) {e : Int} (hlow : -400 ≤ e) (hhigh : e ≤ 400) :
    decimalRatio k e = (k * 10 ^ e.toNat * Magnitude.stepsPerUnit, 10 ^ (-e).toNat) := by
  have hexponent : max (min e (400 : Nat)) (-((400 : Nat) + k.log2 : Int)) = e := by omega
  rw [decimalRatio, scaledRatio, hexponent]

namespace Numeral

open Binary64 Magnitude

/-! ## Values -/

/-- Whole numbers that 53 bits can hold are in range. -/
theorem inRange_whole (s : Bool) {k : Nat} (h : k ≤ 2 ^ precision) :
    (decimal s k 0).inRange = true := by
  have hratio : decimalRatio k 0 = (k * stepsPerUnit, 1) := by
    rw [decimalRatio_eq k (by decide) (by decide)]
    simp
  have hkept : nearest (k * stepsPerUnit) 1 = k * stepsPerUnit := by
    have hmul := nearest_mul Nat.one_pos (representable_whole h)
    rwa [Nat.mul_one] at hmul
  rw [inRange, hratio, ratioInRange, hkept, decide_eq_true (representable_whole h).1]
  simp

theorem nearest_lt_limit_of_inRange {places n d : Nat} (h : ratioInRange places n d = true) :
    nearest n d < limit := by
  rw [ratioInRange, Bool.and_eq_true, decide_eq_true_eq] at h
  exact h.1

/-- A numeral in range stands for a finite number, or it is a word. -/
theorem isFinite_value {n : Numeral} (h : n.inRange = true) :
    n.value.isFinite = true ∨ (∃ s, n = .nan s) ∨ ∃ s, n = .infinite s := by
  cases n with
  | nan s => exact .inr (.inl ⟨s, rfl⟩)
  | infinite s => exact .inr (.inr ⟨s, rfl⟩)
  | decimal s digits e => exact .inl (isFinite_ofRatio_iff.mpr (nearest_lt_limit_of_inRange h))
  | binary s digits e => exact .inl (isFinite_ofRatio_iff.mpr (nearest_lt_limit_of_inRange h))

/-- A numeral in range that stands for more than zero stands for a finite number, or it is a
positive infinity. -/
theorem isFinite_value_of_positive {n : Numeral} (h : n.inRange = true)
    (hpositive : (0 : Binary64).less n.value = true) :
    n.value.isFinite = true ∨ n = .infinite false := by
  rcases isFinite_value h with hfinite | ⟨s, rfl⟩ | ⟨s, rfl⟩
  · exact .inl hfinite
  · -- NaN has no place, so nothing is less.
    have hnone : (0 : Binary64).less (Numeral.nan s).value = false := by
      unfold less related
      cases (0 : Binary64).place? <;> rfl
    rw [hnone] at hpositive
    cases hpositive
  · cases s with
    | false => exact .inr rfl
    | true =>
      have hless : (0 : Binary64).less (.infinite true) = false := by decide +kernel
      rw [value, hless] at hpositive
      cases hpositive

/-! ## Words -/

/-- A word is read off the front of a text in any case. -/
theorem readWord?_eq_some_iff {word s rest : List Char} :
    readWord? word s = some rest ↔ ∃ front, s = front ++ rest ∧ front.map Char.toLower = word := by
  induction word generalizing s with
  | nil => simp [readWord?, eq_comm]
  | cons w word ih =>
    cases s with
    | nil => simp [readWord?]
    | cons c s =>
      rw [readWord?]
      constructor
      · intro h
        split at h
        · next hc =>
          obtain ⟨front, rfl, rfl⟩ := ih.mp h
          exact ⟨c :: front, rfl, by rw [List.map_cons, hc]⟩
        · cases h
      · rintro ⟨front, hs, hfront⟩
        cases front with
        | nil => cases hfront
        | cons d front =>
          rw [List.cons_append, List.cons.injEq] at hs
          obtain ⟨rfl, rfl⟩ := hs
          rw [List.map_cons, List.cons.injEq] at hfront
          rw [if_pos hfront.1]
          exact ih.mpr ⟨front, rfl, hfront.2⟩

theorem readWord?_eq_some_nil_iff {word s : List Char} :
    readWord? word s = some [] ↔ s.map Char.toLower = word := by
  rw [readWord?_eq_some_iff]
  simp

/-- A text that is one of the words for infinity, in any case. -/
def IsInfinityWord (word : List Char) : Prop :=
  word.map Char.toLower = "inf".toList ∨ word.map Char.toLower = "infinity".toList

theorem readNamed?_eq_infinite_iff {negative s : Bool} {word : List Char} :
    readNamed? negative word = some (.infinite s, []) ↔ s = negative ∧ IsInfinityWord word := by
  rw [IsInfinityWord, ← readWord?_eq_some_nil_iff, ← readWord?_eq_some_nil_iff, readNamed?]
  cases hlong : readWord? "infinity".toList word with
  | some rest =>
    -- A text that starts with the long word is not the short one.
    have hshort : readWord? "inf".toList word ≠ some [] := by
      obtain ⟨front, rfl, hfront⟩ := readWord?_eq_some_iff.mp hlong
      rw [Ne, readWord?_eq_some_nil_iff, List.map_append, hfront]
      intro h
      have hlength := congrArg List.length h
      simp at hlength
    rw [or_iff_right hshort]
    simp [eq_comm]
  | none =>
    cases readWord? "inf".toList word with
    | some rest => simp [eq_comm]
    | none => simp

/-! ## Whole texts -/

theorem readHexadecimal?_ne_infinite {negative s : Bool} {t rest : List Char} :
    readHexadecimal? negative t ≠ some (.infinite s, rest) := by
  intro h
  simp [readHexadecimal?, Option.bind_eq_some_iff] at h

theorem readDecimal?_ne_infinite {negative s : Bool} {t rest : List Char} :
    readDecimal? negative t ≠ some (.infinite s, rest) := by
  intro h
  simp [readDecimal?] at h

/-- Only a word is read as an infinity. -/
theorem read?_eq_infinite_iff {s : Bool} {text : List Char} :
    read? text = some (.infinite s, []) ↔
      ∃ word, readSign (text.dropWhile isSpace) = (s, word) ∧ IsInfinityWord word := by
  rcases hsign : readSign (text.dropWhile isSpace) with ⟨negative, word⟩
  have hread : read? text = some (.infinite s, []) ↔
      readNamed? negative word = some (.infinite s, []) := by
    rw [read?, hsign]
    dsimp only
    cases readNamed? negative word with
    | some result => rfl
    | none =>
      refine iff_of_false ?_ (by simp)
      intro h
      cases hhexadecimal : readHexadecimal? negative word with
      | some result =>
        simp only [hhexadecimal] at h
        exact readHexadecimal?_ne_infinite (hhexadecimal.trans h)
      | none =>
        simp only [hhexadecimal] at h
        exact readDecimal?_ne_infinite h
  rw [hread, readNamed?_eq_infinite_iff]
  simp [eq_comm]

/-- A text that spells positive infinity: white space and a plus may stand before the word. -/
def SpellsInfinity (text : List Char) : Prop :=
  ∃ space sign word, text = space ++ (sign ++ word) ∧ (∀ c ∈ space, isSpace c = true) ∧
    (sign = [] ∨ sign = ['+']) ∧ IsInfinityWord word

theorem toLower_of_isSpace {c : Char} (h : isSpace c = true) : c.toLower = c := by
  apply Char.toLower_eq_of_not_isUpper
  intro hupper
  simp only [isSpace, Char.isUpper, Bool.or_eq_true, Bool.and_eq_true, decide_eq_true_eq]
    at h hupper
  rcases h with rfl | ⟨-, hle⟩
  · exact absurd hupper.1 (by decide)
  · exact absurd (UInt32.le_trans hupper.1 hle) (by decide)

theorem IsInfinityWord.exists_cons {word : List Char} (h : IsInfinityWord word) :
    ∃ c rest, word = c :: rest ∧ c.toLower = 'i' := by
  cases word with
  | nil => rcases h with h | h <;> cases h
  | cons c rest => rcases h with h | h <;> exact ⟨c, rest, rfl, (List.cons.inj h).1⟩

/-- A word for infinity starts with neither white space nor a sign. -/
theorem IsInfinityWord.readSign_eq {word : List Char} (h : IsInfinityWord word) :
    word.dropWhile isSpace = word ∧ readSign word = (false, word) := by
  obtain ⟨c, rest, rfl, hc⟩ := h.exists_cons
  have hspace : ¬ isSpace c = true := by
    intro hspace
    rw [toLower_of_isSpace hspace] at hc
    subst hc
    exact absurd hspace (by decide)
  refine ⟨List.dropWhile_cons_of_neg hspace, ?_⟩
  unfold readSign
  split
  · next heq => cases heq; exact absurd hc (by decide)
  · next heq => cases heq; exact absurd hc (by decide)
  · rfl

theorem read?_eq_positive_infinity_iff {text : List Char} :
    read? text = some (.infinite false, []) ↔ SpellsInfinity text := by
  rw [read?_eq_infinite_iff]
  constructor
  · rintro ⟨word, hsign, hword⟩
    have hcut : text = text.takeWhile isSpace ++ text.dropWhile isSpace :=
      List.takeWhile_append_dropWhile.symm
    have hspace : ∀ c ∈ text.takeWhile isSpace, isSpace c = true := fun c => List.mem_takeWhile_imp
    unfold readSign at hsign
    split at hsign
    · cases hsign
    · next rest heq =>
      cases hsign
      exact ⟨_, ['+'], _, by rw [List.singleton_append, ← heq, ← hcut], hspace, .inr rfl, hword⟩
    · cases hsign
      exact ⟨_, [], _, by rw [List.nil_append, ← hcut], hspace, .inl rfl, hword⟩
  · rintro ⟨space, sign, word, rfl, hspace, hsign, hword⟩
    obtain ⟨hdrop, hread⟩ := hword.readSign_eq
    refine ⟨word, ?_, hword⟩
    rw [List.dropWhile_append_of_pos hspace]
    rcases hsign with rfl | rfl
    · rw [List.nil_append, hdrop, hread]
    · rw [List.singleton_append, List.dropWhile_cons_of_neg (by decide)]
      rfl

end Numeral

end Metrology
