import Mathlib
import Metrology.Proofs.Expression
import Metrology.Proofs.Session.Normal
import Metrology.Proofs.Session.Symbols

/-!
# Metrology.Proofs.Session.RoundTrip -- a session reads what it writes

The symbols of a session start as the built-in ones, which read the bases, and adding a symbol that
is no word for a base dimension keeps that. So after any run with such additions, units in
exponential notation are read back term for term. Quantities come in as a case of it: their units
are normal, so their terms are writable as soon as the exponents are legible.
-/

namespace Metrology

namespace Session

open Metrology.Units

/-- A run whose additions are no words for base dimensions leaves symbols that read the bases. -/
theorem readsBases_run {commands : List Command}
    (hwords : ∀ word dimension prefixable, .addSymbol word dimension prefixable ∈ commands →
      ∀ d, d ≠ .reciprocal → ∀ p, word ≠ Symbols.spelling d p) :
    (fresh.run commands).1.symbols.ReadsBases := by
  refine symbols_run commands ?_ fresh Symbols.readsBases_builtin
  intro symbols word dimension prefixable hmem hreads
  exact hreads.offer (hwords word dimension prefixable hmem)

/-- **Exponential notation round-trips.** Let a session have added symbols, but none that is the
symbol of a base unit behind a prefix or nothing. Then it reads back the exponential notation of
every list of writable terms, and of the units of every quantity whose base dimensions have legible
exponents: the same terms in the same order. -/
theorem parse_exponential_of_run (commands : List Command)
    (hwords : ∀ word dimension prefixable, .addSymbol word dimension prefixable ∈ commands →
      ∀ d, d ≠ .reciprocal → ∀ p, word ≠ Symbols.spelling d p) :
    let s := (fresh.run commands).1
    (∀ units : Units, units ≠ [] → (∀ t ∈ units, t.IsWritable) →
      s.symbols.parse units.exponential = .ok units) ∧
    ∀ source q, s.quantity source = .ok q →
      (∀ t ∈ q.units, t.isReciprocal = false → Exponent.IsLegible t.exponent) →
      s.symbols.parse q.units.exponential = .ok q.units := by
  intro s
  have hreads : s.symbols.ReadsBases := readsBases_run hwords
  refine ⟨fun units hne hunits => hreads.parse_exponential hne hunits, ?_⟩
  intro source q hq hlegible
  -- A fresh session keeps no quantity, so every quantity it comes to is normal.
  have hfresh : fresh.Settled := fun name q hget => by cases hget
  have hnormal : q.units.Normal := normal_quantity (settled_run commands fresh hfresh).1 hq
  apply hreads.parse_exponential hnormal.nonempty
  exact fun t ht => isWritable_of_normal hnormal hlegible ht

/-- After four additions, of which one is refused and two start like prefixed words: a list with
the marker among its terms, a dimension that stands twice and the two ends of the exponents, and the
unit of a frequency, which gets its marker when the quantity is built. -/
theorem parse_exponential_of_run_frequency :
    let commands : List Command :=
      [.addSymbol "m2" .length true, .addSymbol "furlong" .length true,
        .addSymbol "mmHg" .mass false, .addSymbol "da" .time true]
    let s := (fresh.run commands).1
    let units : Units :=
      [⟨.amountOfSubstance, 2147483647, some .milli⟩, .marker,
        ⟨.luminousIntensity, -2147483648, none⟩, ⟨.length, 1, some .deca⟩,
        ⟨.length, -2, some .milli⟩]
    let frequency : QuantitySource := .draft ⟨50, .terms [⟨.time, -1, some .kilo⟩], .given {}⟩
    s.symbols.parse units.exponential = .ok units ∧
      ∃ q, s.quantity frequency = .ok q ∧ s.symbols.parse q.units.exponential = .ok q.units := by
  intro commands s units frequency
  have hspelled : ∀ word ∈ ["m2", "furlong", "mmHg", "da"], ∀ d ∈ Dimension.bases,
      ∀ p ∈ Prefix.options, word ≠ Symbols.spelling d p := by
    decide +kernel
  have hwords : ∀ word dimension prefixable,
      Command.addSymbol word dimension prefixable ∈ commands →
        ∀ d, d ≠ .reciprocal → ∀ p, word ≠ Symbols.spelling d p := by
    intro word dimension prefixable hmem d hd p
    refine hspelled word ?_ d (Dimension.mem_bases hd) p (Prefix.mem_options p)
    simp only [commands, List.mem_cons, List.not_mem_nil, or_false, Command.addSymbol.injEq] at hmem
    rcases hmem with ⟨rfl, _⟩ | ⟨rfl, _⟩ | ⟨rfl, _⟩ | ⟨rfl, _⟩ <;> simp
  obtain ⟨hunits, hquantity⟩ := parse_exponential_of_run commands hwords
  constructor
  · exact hunits units (List.cons_ne_nil _ _) (by decide +kernel)
  · exact ⟨_, rfl, hquantity frequency _ rfl (by decide +kernel)⟩

end Session

end Metrology
