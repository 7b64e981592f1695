import Mathlib
import Metrology.Proofs.Prefix
import Metrology.Symbols

/-!
# Metrology.Proofs.Symbols.Separation -- the prefix in a word

A word *reads* as a prefix before a symbol when it is put together of the two and the symbol takes
prefixes (`Reads`). Separating a word finds the reading there is: a word that is known stands for
itself, and any other is separated into one of its readings (`separate?_eq_some_iff`). It has two
only when it starts with `da` and an `a` after the `d` can begin a symbol too (`Reads.cases`); then
`da` is the prefix that is found. A prefix before the empty word is a reading that is never found.
-/

namespace Metrology

namespace Symbols

/-- Whether a word is a prefix before a symbol that takes prefixes. -/
structure Reads (symbols : Symbols) (word : String) (p : Prefix) (symbol : String) : Prop where
  eq : word = p.symbol ++ symbol
  isPrefixable : symbols.isPrefixable symbol = true

variable {symbols : Symbols} {word symbol other : String} {p q : Prefix}
  {siPrefix : Option Prefix}

/-! ## Known symbols -/

/-- A symbol that takes prefixes is known. -/
theorem contains_of_isPrefixable (h : symbols.isPrefixable word = true) :
    symbols.contains word = true :=
  symbols.known word h

/-! ## Readings -/

/-- Two readings of a word are the same, or one is of `d` and the other of `da`. -/
theorem Reads.cases (h : symbols.Reads word p symbol) (h' : symbols.Reads word q other) :
    (p = q ∧ symbol = other) ∨ (p = .deci ∧ q = .deca) ∨ (p = .deca ∧ q = .deci) :=
  Prefix.symbol_append_cases (h.eq.symm.trans h'.eq)

/-- A front of a word that is taken for a prefix leaves a reading of the word. -/
theorem reads_of_separateAt? {length : Nat}
    (h : symbols.separateAt? length word.toList = some (symbol, siPrefix)) :
    ∃ p, siPrefix = some p ∧ p.symbol.toList.length = length ∧ symbol ≠ "" ∧
      symbols.Reads word p symbol := by
  unfold separateAt? at h
  split at h
  · cases h
  next hlength =>
  split at h
  · next p hp =>
    obtain ⟨hprefixable, heq⟩ := Option.ite_none_right_eq_some.mp h
    cases heq
    have hfront : p.symbol.toList = word.toList.take length := by
      rw [Prefix.ofSymbol?_eq_some_iff.mp hp, String.toList_ofList]
    refine ⟨p, rfl, ?_, ?_, String.toList_injective ?_, hprefixable⟩
    · rw [hfront, List.length_take]
      omega
    · intro heq
      have hrest : word.toList.drop length = [] :=
        String.ofList_injective (heq.trans String.ofList_nil.symm)
      exact hlength (List.drop_eq_nil_iff.mp hrest)
    · rw [String.toList_append, hfront, String.toList_ofList, List.take_append_drop]
  · cases h

/-- A reading is found at the length of its prefix. -/
theorem Reads.separateAt?_eq (h : symbols.Reads word p symbol) (hsymbol : symbol ≠ "") :
    symbols.separateAt? p.symbol.toList.length word.toList = some (symbol, some p) := by
  obtain ⟨rfl, hprefixable⟩ := h
  have hlength : ¬ (p.symbol ++ symbol).toList.length ≤ p.symbol.toList.length := by
    have hpos : 0 < symbol.toList.length :=
      List.length_pos_iff.mpr fun hnil => hsymbol (String.toList_injective hnil)
    rw [String.toList_append, List.length_append]
    omega
  have hfront : Prefix.ofSymbol? (.ofList ((p.symbol ++ symbol).toList.take
      p.symbol.toList.length)) = some p := by
    rw [Prefix.ofSymbol?_eq_some_iff, String.toList_append, List.take_left, String.ofList_toList]
  rw [separateAt?, if_neg hlength, hfront, String.toList_append, List.drop_left,
    String.ofList_toList]
  exact if_pos hprefixable

/-- What is found at a length are the readings whose prefix has that length. -/
theorem separateAt?_eq_some_iff {length : Nat} :
    symbols.separateAt? length word.toList = some (symbol, siPrefix) ↔
      ∃ p, siPrefix = some p ∧ p.symbol.toList.length = length ∧ symbol ≠ "" ∧
        symbols.Reads word p symbol := by
  constructor
  · exact reads_of_separateAt?
  · rintro ⟨p, rfl, rfl, hsymbol, hreads⟩
    exact hreads.separateAt?_eq hsymbol

/-- At two letters the readings of `da` are found. -/
theorem separateAt?_two_eq_some_iff :
    symbols.separateAt? 2 word.toList = some (symbol, siPrefix) ↔
      siPrefix = some .deca ∧ symbol ≠ "" ∧ symbols.Reads word .deca symbol := by
  rw [separateAt?_eq_some_iff]
  constructor
  · rintro ⟨p, rfl, hlength, hreads⟩
    have hp : p = .deca := by
      by_contra hne
      rw [Prefix.length_symbol, if_neg hne] at hlength
      cases hlength
    exact hp ▸ ⟨rfl, hreads⟩
  · rintro ⟨rfl, hreads⟩
    exact ⟨.deca, rfl, rfl, hreads⟩

/-! ## Separating a prefix -/

/-- A word stands for itself where it is known. Otherwise it is separated into a reading, of which
`d` is not the prefix if `da` can be. -/
theorem separate?_eq_some_iff :
    symbols.separate? word = some (symbol, siPrefix) ↔
      (symbols.contains word = true ∧ symbol = word ∧ siPrefix = none) ∨
        (symbols.contains word = false ∧ ∃ p, siPrefix = some p ∧ symbol ≠ "" ∧
          symbols.Reads word p symbol ∧
          (p = .deci → ∀ other, other ≠ "" → ¬ symbols.Reads word .deca other)) := by
  unfold separate?
  split
  · next hknown => simp [hknown, eq_comm]
  · next hunknown =>
    rw [Option.orElse_eq_some]
    simp only [hunknown, Bool.false_eq_true, false_and, false_or, true_and]
    constructor
    · rintro (htwo | ⟨htwo, hone⟩)
      · obtain ⟨rfl, hsymbol, hreads⟩ := separateAt?_two_eq_some_iff.mp htwo
        exact ⟨.deca, rfl, hsymbol, hreads, fun h => absurd h (by decide)⟩
      · obtain ⟨p, rfl, -, hsymbol, hreads⟩ := separateAt?_eq_some_iff.mp hone
        refine ⟨p, rfl, hsymbol, hreads, fun _ other hother hdeca => ?_⟩
        rw [separateAt?_two_eq_some_iff.mpr ⟨rfl, hother, hdeca⟩] at htwo
        cases htwo
    · rintro ⟨p, rfl, hsymbol, hreads, hdeci⟩
      by_cases hp : p = .deca
      · subst hp
        exact .inl (separateAt?_two_eq_some_iff.mpr ⟨rfl, hsymbol, hreads⟩)
      · refine .inr ⟨?_, separateAt?_eq_some_iff.mpr ⟨p, rfl, ?_, hsymbol, hreads⟩⟩
        · -- A reading of `da` would be another one, and then the prefix of this one is `d`.
          rw [Option.eq_none_iff_forall_ne_some]
          rintro ⟨other, siPrefix⟩ hother
          obtain ⟨-, hother, hdeca⟩ := separateAt?_two_eq_some_iff.mp hother
          rcases hreads.cases hdeca with ⟨rfl, -⟩ | ⟨rfl, -⟩ | ⟨rfl, -⟩
          · exact hp rfl
          · exact hdeci rfl other hother hdeca
          · exact hp rfl
        · rw [Prefix.length_symbol, if_neg hp]

/-- A word can not be separated when it is not known and has no reading. -/
theorem separate?_eq_none_iff :
    symbols.separate? word = none ↔
      symbols.contains word = false ∧
        ∀ p symbol, symbol ≠ "" → ¬ symbols.Reads word p symbol := by
  rw [Option.eq_none_iff_forall_ne_some]
  simp only [Prod.forall, ne_eq, separate?_eq_some_iff]
  constructor
  · intro h
    have hunknown : symbols.contains word = false := by
      rw [Bool.eq_false_iff]
      exact fun hknown => h word none (.inl ⟨hknown, rfl, rfl⟩)
    -- A reading of `da` goes first, and without one any reading is found.
    have hdeca : ∀ symbol, symbol ≠ "" → ¬ symbols.Reads word .deca symbol :=
      fun symbol hsymbol hreads => h symbol _
        (.inr ⟨hunknown, .deca, rfl, hsymbol, hreads, fun heq => absurd heq (by decide)⟩)
    exact ⟨hunknown, fun p symbol hsymbol hreads =>
      h symbol _ (.inr ⟨hunknown, p, rfl, hsymbol, hreads, fun _ => hdeca⟩)⟩
  · rintro ⟨hunknown, hnone⟩ symbol siPrefix (⟨hknown, -⟩ | ⟨-, p, -, hsymbol, hreads, -⟩)
    · rw [hunknown] at hknown
      cases hknown
    · exact hnone p symbol hsymbol hreads

/-- A word is put together of what it is separated into. -/
theorem eq_of_separate? (h : symbols.separate? word = some (symbol, siPrefix)) :
    word = siPrefix.elim "" Prefix.symbol ++ symbol := by
  rcases separate?_eq_some_iff.mp h with ⟨-, rfl, rfl⟩ | ⟨-, p, rfl, -, hreads, -⟩
  · exact String.empty_append.symm
  · exact hreads.eq

/-- The symbol that a word is separated into is known. -/
theorem contains_of_separate? (h : symbols.separate? word = some (symbol, siPrefix)) :
    symbols.contains symbol = true := by
  rcases separate?_eq_some_iff.mp h with ⟨hknown, rfl, -⟩ | ⟨-, p, -, -, hreads, -⟩
  · exact hknown
  · exact contains_of_isPrefixable hreads.isPrefixable

theorem dimensionOf?_isSome (h : symbols.separate? word = some (symbol, siPrefix)) :
    (symbols.dimensionOf? symbol).isSome :=
  contains_of_separate? h

end Symbols

end Metrology
