import Mathlib
import Metrology.Prefix
import Metrology.Proofs.Text

/-!
# Metrology.Proofs.Prefix -- telling a prefix from what follows it

Prefixes are written in front of something: their names in front of aliases, their symbols in front
of unit symbols. A name never begins another one, so of a word that starts with a name both parts
can be told, whatever follows (`name_append_inj`). With symbols that is so unless the word starts
with `da`, which may be read as `d` before an `a` (`symbol_append_cases`); where the unit behind the
prefix is given, its symbol is determined all the same (`symbol_append_left_inj`).
-/

namespace Metrology

namespace Prefix

/-! ## Names -/

/-- No name begins the name of another prefix. -/
theorem eq_of_name_begins {p q : Prefix} (h : p.name.toList <+: q.name.toList) : p = q := by
  have hall : ∀ p ∈ all, ∀ q ∈ all, p.name.toList <+: q.name.toList → p = q := by decide +kernel
  exact hall p p.mem_all q q.mem_all h

/-- The names are a prefix-free code. -/
theorem name_append_inj {p q : Prefix} {a b : String} (h : p.name ++ a = q.name ++ b) :
    p = q ∧ a = b := by
  have hpq : p = q := by
    rcases Text.prefix_or_prefix_of_append_eq h with hbegins | hbegins
    · exact eq_of_name_begins hbegins
    · exact (eq_of_name_begins hbegins).symm
  subst hpq
  exact ⟨rfl, (String.append_right_inj p.name).mp h⟩

/-! ## Symbols -/

theorem symbol_injective : Function.Injective symbol := by
  have hall : ∀ p ∈ all, ∀ q ∈ all, p.symbol = q.symbol → p = q := by decide +kernel
  exact fun p q => hall p p.mem_all q q.mem_all

theorem ofSymbol?_eq_some_iff {s : String} {p : Prefix} : ofSymbol? s = some p ↔ p.symbol = s := by
  constructor
  · intro h
    simpa using List.find?_some h
  · rintro rfl
    have hall : ∀ p ∈ all, ofSymbol? p.symbol = some p := by decide +kernel
    exact hall p p.mem_all

/-- Symbols have one letter, except `da`. -/
theorem length_symbol (p : Prefix) : p.symbol.toList.length = if p = .deca then 2 else 1 := by
  cases p <;> rfl

/-- Before a given unit, different prefixes make different names. -/
theorem symbol_append_left_inj {p q : Prefix} {unit : String} :
    p.symbol ++ unit = q.symbol ++ unit ↔ p = q := by
  rw [String.append_left_inj, symbol_injective.eq_iff]

/-- Only `d` begins another symbol. -/
theorem eq_of_symbol_begins {p q : Prefix} (h : p.symbol.toList <+: q.symbol.toList) :
    p = q ∨ (p = .deci ∧ q = .deca) := by
  have hall : ∀ p ∈ all, ∀ q ∈ all, p.symbol.toList <+: q.symbol.toList →
      p = q ∨ (p = .deci ∧ q = .deca) := by
    decide +kernel
  exact hall p p.mem_all q q.mem_all h

/-- A word that starts with two symbols starts with `da`. -/
theorem symbol_append_cases {p q : Prefix} {s t : String} (h : p.symbol ++ s = q.symbol ++ t) :
    (p = q ∧ s = t) ∨ (p = .deci ∧ q = .deca) ∨ (p = .deca ∧ q = .deci) := by
  have hpq : p = q ∨ (p = .deci ∧ q = .deca) ∨ (p = .deca ∧ q = .deci) := by
    rcases Text.prefix_or_prefix_of_append_eq h with hbegins | hbegins
    · exact (eq_of_symbol_begins hbegins).imp_right .inl
    · exact (eq_of_symbol_begins hbegins).imp Eq.symm fun h => .inr h.symm
  refine hpq.imp_left ?_
  rintro rfl
  exact ⟨rfl, (String.append_right_inj p.symbol).mp h⟩

end Prefix

end Metrology
