import Mathlib
import Metrology.Proofs.Symbols.Addition

/-!
# Metrology.Proofs.Symbols -- the words for base dimensions

A base dimension is written as the symbol of its coherent unit, behind a prefix or nothing. Symbols
*read the bases* when these seven symbols are known with their dimensions and take prefixes, and no
prefixed one of them is known as a symbol of its own. Then every such word is separated into the
prefix and the symbol it was put together from (`ReadsBases.separate?`). In `mol`, `cd` and `min`
the first letter is that of a prefix, and in `dam` two of them are; so what decides is that known
symbols come before prefixes, and `da` before `d`.

The built-in symbols read the bases, and so do all that are reached from them by adding symbols
which are not such words themselves (`ReadsBases.offer`).
-/

namespace Metrology

namespace Dimension

/-- The dimensions other than the marker. -/
def bases : List Dimension := all.erase .reciprocal

theorem mem_bases {d : Dimension} (h : d ≠ .reciprocal) : d ∈ bases :=
  (List.mem_erase_of_ne h).mpr d.mem_all

end Dimension

namespace Prefix

/-- The prefixes, and none. -/
def options : List (Option Prefix) := none :: all.map some

theorem mem_options (p : Option Prefix) : p ∈ options := by
  cases p with
  | none => exact List.mem_cons_self
  | some p => exact List.mem_cons_of_mem _ (List.mem_map_of_mem p.mem_all)

end Prefix

namespace Symbols

/-- The word for a base dimension with a prefix, or without. -/
def spelling (d : Dimension) (p : Option Prefix) : String := p.elim "" Prefix.symbol ++ d.symbol

/-- Whether the words for base dimensions are read as what they are. -/
structure ReadsBases (symbols : Symbols) : Prop where
  dimension : ∀ d : Dimension, d ≠ .reciprocal → symbols.dimensionOf? d.symbol = some d
  isPrefixable : ∀ d : Dimension, d ≠ .reciprocal → symbols.isPrefixable d.symbol = true
  prefixed : ∀ d : Dimension, d ≠ .reciprocal → ∀ p, symbols.contains (spelling d (some p)) = false

theorem spelling_none (d : Dimension) : spelling d none = d.symbol := String.empty_append

theorem isAlphabetic_spelling {d : Dimension} (hd : d ≠ .reciprocal) (p : Option Prefix) :
    Text.isAlphabetic (spelling d p).toList = true := by
  have h : ∀ d ∈ Dimension.bases, ∀ p ∈ Prefix.options,
      Text.isAlphabetic (spelling d p).toList = true := by
    decide +kernel
  exact h d (Dimension.mem_bases hd) p (Prefix.mem_options p)

theorem isAlpha_of_mem_spelling {d : Dimension} (hd : d ≠ .reciprocal) {p : Option Prefix}
    {c : Char} (h : c ∈ (spelling d p).toList) : c.isAlpha = true := by
  have hword := isAlphabetic_spelling hd p
  rw [Text.isAlphabetic, Bool.and_eq_true] at hword
  exact List.all_eq_true.mp hword.2 c h

theorem symbol_ne_empty (d : Dimension) : d.symbol ≠ "" := by
  cases d <;> decide

/-- No base dimension's symbol starts with an `a`, so `d` before it is not `da`. -/
theorem not_deca_begins_spelling {d : Dimension} (hd : d ≠ .reciprocal) :
    ¬ Prefix.deca.symbol.toList <+: (spelling d (some .deci)).toList := by
  have h : ∀ d ∈ Dimension.bases,
      ¬ Prefix.deca.symbol.toList <+: (spelling d (some .deci)).toList := by
    decide +kernel
  exact h d (Dimension.mem_bases hd)

/-! ## Which symbols read the bases -/

theorem readsBases_builtin : builtin.ReadsBases where
  dimension := by
    have h : ∀ d ∈ Dimension.bases, builtin.dimensionOf? d.symbol = some d := by decide +kernel
    exact fun d hd => h d (Dimension.mem_bases hd)
  isPrefixable := by
    have h : ∀ d ∈ Dimension.bases, builtin.isPrefixable d.symbol = true := by decide +kernel
    exact fun d hd => h d (Dimension.mem_bases hd)
  prefixed := by
    have h : ∀ d ∈ Dimension.bases, ∀ p ∈ Prefix.all,
        builtin.contains (spelling d (some p)) = false := by
      decide +kernel
    exact fun d hd p => h d (Dimension.mem_bases hd) p p.mem_all

/-- A symbol that is no word for a base dimension can be added: what is looked up then stands under
other names. -/
theorem ReadsBases.offer {symbols : Symbols} (h : symbols.ReadsBases) {word : String}
    {dimension : Dimension} {prefixable : Bool}
    (hword : ∀ d, d ≠ .reciprocal → ∀ p, word ≠ spelling d p) :
    (symbols.offer word dimension prefixable).ReadsBases where
  dimension d hd := by
    have hne : d.symbol ≠ word := fun heq => hword d hd none (heq.symm.trans (spelling_none d).symm)
    rw [dimensionOf?_offer_of_ne hne, h.dimension d hd]
  isPrefixable d hd := isPrefixable_offer_iff.mpr (.inl (h.isPrefixable d hd))
  prefixed d hd p := by
    rw [contains_offer_of_ne (hword d hd (some p)).symm, h.prefixed d hd p]

/-! ## Separating a prefix -/

theorem ReadsBases.dimensionOf {symbols : Symbols} (h : symbols.ReadsBases) {d : Dimension}
    (hd : d ≠ .reciprocal) : symbols.dimensionOf d.symbol = .ok d := by
  rw [Symbols.dimensionOf, h.dimension d hd]

/-- The word for a base dimension is separated into its prefix and its symbol. -/
theorem ReadsBases.separate? {symbols : Symbols} (h : symbols.ReadsBases) {d : Dimension}
    (hd : d ≠ .reciprocal) (p : Option Prefix) :
    symbols.separate? (spelling d p) = some (d.symbol, p) := by
  apply separate?_eq_some_iff.mpr
  cases p with
  | none =>
    have hknown : symbols.contains d.symbol = true :=
      contains_of_isPrefixable (h.isPrefixable d hd)
    rw [spelling_none]
    exact .inl ⟨hknown, rfl, rfl⟩
  | some p =>
    -- A prefixed word is not known as a symbol, so it is taken apart.
    refine .inr ⟨h.prefixed d hd p, p, rfl, symbol_ne_empty d, ⟨rfl, h.isPrefixable d hd⟩, ?_⟩
    rintro rfl other - hdeca
    exact not_deca_begins_spelling hd (hdeca.eq ▸ Text.prefix_toList_append List.prefix_rfl other)

end Symbols

end Metrology
