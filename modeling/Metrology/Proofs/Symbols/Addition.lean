import Mathlib
import Metrology.Proofs.Symbols.Separation
import Metrology.Proofs.Table

/-!
# Metrology.Proofs.Symbols.Addition -- what adding a symbol changes

An alphabetic word can be added to any symbols; a word with anything else in it, or nothing, is
refused and changes nothing (`add_eq_of_stopped`). After an addition the word has its dimension
(`dimensionOf?_offer_self`), is known (`contains_offer_iff`), and takes prefixes if it was added so
or did before (`isPrefixable_offer_iff`). Nothing else is touched. So a word is separated as before
unless it is the one added, or has that one behind a prefix (`separate?_offer_of_ne`), whatever
readings it has or gets.
-/

namespace Metrology

namespace Symbols

/-- Whether every symbol is a word of letters. -/
def IsAlphabetic (symbols : Symbols) : Prop :=
  ∀ word, symbols.contains word = true → Text.isAlphabetic word.toList = true

/-- The symbols with one more, or as they were where it is refused. -/
def offer (symbols : Symbols) (word : String) (dimension : Dimension) (prefixable : Bool) :
    Symbols :=
  (symbols.add word dimension prefixable).1

variable {symbols : Symbols} {word other : String} {dimension : Dimension} {prefixable : Bool}

/-! ## What is refused -/

theorem add_of_isAlphabetic (h : Text.isAlphabetic word.toList = true) :
    (symbols.add word dimension prefixable).2 = none := by
  rw [add, if_pos h]
  cases prefixable <;> rfl

theorem add_of_not_isAlphabetic (h : ¬ Text.isAlphabetic word.toList = true) :
    symbols.add word dimension prefixable = (symbols, some (.notAlphabetic word)) :=
  if_neg h

/-- A word that is refused changes nothing. -/
theorem add_eq_of_stopped {e : ParseError}
    (h : (symbols.add word dimension prefixable).2 = some e) :
    symbols.add word dimension prefixable = (symbols, some e) := by
  by_cases hword : Text.isAlphabetic word.toList = true
  · rw [add_of_isAlphabetic hword] at h
    cases h
  · rw [add_of_not_isAlphabetic hword] at h ⊢
    cases h
    rfl

theorem offer_of_not_isAlphabetic (h : ¬ Text.isAlphabetic word.toList = true) :
    symbols.offer word dimension prefixable = symbols := by
  rw [offer, add_of_not_isAlphabetic h]

/-! ## What is added -/

theorem dimensions_offer (h : Text.isAlphabetic word.toList = true) :
    (symbols.offer word dimension prefixable).dimensions =
      symbols.dimensions.insert word dimension := by
  rw [offer, add, if_pos h]
  cases prefixable <;> rfl

theorem prefixable_offer (h : Text.isAlphabetic word.toList = true) :
    (symbols.offer word dimension prefixable).prefixable =
      if prefixable then symbols.prefixable.insert word () else symbols.prefixable := by
  rw [offer, add, if_pos h]
  cases prefixable <;> rfl

theorem dimensionOf?_offer_self (h : Text.isAlphabetic word.toList = true) :
    (symbols.offer word dimension prefixable).dimensionOf? word = some dimension := by
  rw [dimensionOf?, dimensions_offer h, Table.get?_insert_self]

theorem dimensionOf?_offer_of_ne (h : other ≠ word) :
    (symbols.offer word dimension prefixable).dimensionOf? other = symbols.dimensionOf? other := by
  by_cases hword : Text.isAlphabetic word.toList = true
  · rw [dimensionOf?, dimensions_offer hword, Table.get?_insert_of_ne _ h, dimensionOf?]
  · rw [offer_of_not_isAlphabetic hword]

/-- Known are the symbols that were, and the one added. -/
theorem contains_offer_iff :
    (symbols.offer word dimension prefixable).contains other = true ↔
      symbols.contains other = true ∨ (other = word ∧ Text.isAlphabetic word.toList = true) := by
  by_cases hword : Text.isAlphabetic word.toList = true
  · rw [contains, dimensions_offer hword, Table.contains_insert_iff]
    simp [contains, hword, or_comm]
  · simp [offer_of_not_isAlphabetic hword, hword]

theorem contains_offer_of_ne (h : other ≠ word) :
    (symbols.offer word dimension prefixable).contains other = symbols.contains other := by
  rw [Bool.eq_iff_iff, contains_offer_iff]
  simp [h]

/-- The mark that a symbol takes prefixes is never taken away. -/
theorem isPrefixable_offer_iff :
    (symbols.offer word dimension prefixable).isPrefixable other = true ↔
      symbols.isPrefixable other = true ∨
        (other = word ∧ prefixable = true ∧ Text.isAlphabetic word.toList = true) := by
  by_cases hword : Text.isAlphabetic word.toList = true
  · rw [isPrefixable, prefixable_offer hword]
    cases prefixable with
    | false => simp [isPrefixable]
    | true =>
      rw [if_pos rfl, Table.contains_insert_iff]
      simp [isPrefixable, hword, or_comm]
  · simp [offer_of_not_isAlphabetic hword, hword]

theorem isPrefixable_offer_of_ne (h : other ≠ word) :
    (symbols.offer word dimension prefixable).isPrefixable other = symbols.isPrefixable other := by
  rw [Bool.eq_iff_iff, isPrefixable_offer_iff]
  simp [h]

/-! ## Words of letters -/

/-- Symbols of letters leave nothing empty behind a prefix. -/
theorem IsAlphabetic.ne_empty (halpha : symbols.IsAlphabetic) {p : Prefix} {symbol : String}
    (h : symbols.Reads other p symbol) : symbol ≠ "" := by
  rintro rfl
  cases halpha "" (contains_of_isPrefixable h.isPrefixable)

theorem isAlphabetic_builtin : builtin.IsAlphabetic := by
  have hnames : ∀ word ∈ builtin.names, Text.isAlphabetic word.toList = true := by decide +kernel
  exact fun word hknown => hnames word (Table.mem_names_iff.mpr (Table.contains_iff.mp hknown))

/-! ## What is separated as before -/

/-- The readings of a word are the same, unless it is a reading of the word added. -/
theorem reads_offer_iff {p : Prefix} {symbol : String} (h : other ≠ p.symbol ++ word) :
    (symbols.offer word dimension prefixable).Reads other p symbol ↔
      symbols.Reads other p symbol := by
  have hsymbol : other = p.symbol ++ symbol → symbol ≠ word := by
    rintro heq rfl
    exact h heq
  constructor
  · rintro ⟨heq, hprefixable⟩
    rw [isPrefixable_offer_of_ne (hsymbol heq)] at hprefixable
    exact ⟨heq, hprefixable⟩
  · rintro ⟨heq, hprefixable⟩
    rw [← isPrefixable_offer_of_ne (hsymbol heq)] at hprefixable
    exact ⟨heq, hprefixable⟩

theorem separate?_offer_of_ne (hne : other ≠ word) (h : ∀ p : Prefix, other ≠ p.symbol ++ word) :
    (symbols.offer word dimension prefixable).separate? other = symbols.separate? other := by
  apply Option.ext
  rintro ⟨symbol, siPrefix⟩
  simp only [separate?_eq_some_iff, contains_offer_of_ne hne, reads_offer_iff (h _)]

end Symbols

end Metrology
