import Mathlib
import Metrology.Proofs.Expression.Words
import Metrology.Proofs.Session.Basic
import Metrology.Proofs.Session.Symbols

/-!
# Metrology.Proofs.Session.Vocabulary -- the words that a session understands

A session understands the built-in symbols and those that were added and not refused, and takes
prefixes before those that were added so at least once (`contains_run_iff`,
`isPrefixable_run_iff`). All of them are words of letters, whatever was tried, so the separation of
prefixes is what it is for such symbols (`separation_of_run`).

What a session understands already does not change when a symbol is added, as long as the new word
does not stand in the text, behind a prefix or without one (`conservative_addSymbol`).
-/

namespace Metrology

open Expression (IsWord isWord_iff)

namespace Session

variable {word : String}

/-! ## What a session understands -/

theorem step_addSymbol (s : Session) (word : String) (dimension : Dimension) (prefixable : Bool) :
    (s.step (.addSymbol word dimension prefixable)).1.symbols =
      s.symbols.offer word dimension prefixable := by
  rfl

/-- What an offered symbol may bring about, and none undoes, has come about in a run when it was so
before or some symbol offered in the run brought it about. -/
theorem symbols_run_iff {P : Symbols → Prop} {brings : String → Dimension → Bool → Prop}
    (h : ∀ symbols word dimension prefixable,
      P (symbols.offer word dimension prefixable) ↔
        P symbols ∨ brings word dimension prefixable) (commands : List Command) :
    ∀ s : Session, P (s.run commands).1.symbols ↔
      P s.symbols ∨ ∃ word dimension prefixable,
        .addSymbol word dimension prefixable ∈ commands ∧ brings word dimension prefixable := by
  induction commands with
  | nil => intro s; simp [run]
  | cons command commands ih =>
    intro s
    rw [run_cons, ih]
    by_cases hadd : ∃ word dimension prefixable, command = .addSymbol word dimension prefixable
    · obtain ⟨word, dimension, prefixable, rfl⟩ := hadd
      rw [step_addSymbol, h, or_assoc]
      refine or_congr_right ⟨?_, ?_⟩
      · rintro (hbrings | ⟨_, _, _, hmem, hbrings⟩)
        · exact ⟨_, _, _, List.mem_cons_self, hbrings⟩
        · exact ⟨_, _, _, List.mem_cons_of_mem _ hmem, hbrings⟩
      · rintro ⟨_, _, _, hmem, hbrings⟩
        rcases List.mem_cons.mp hmem with heq | hmem
        · cases heq
          exact .inl hbrings
        · exact .inr ⟨_, _, _, hmem, hbrings⟩
    · -- Any other command leaves the symbols alone.
      push Not at hadd
      have hsame : (s.step command).1.symbols = s.symbols := by
        rcases symbols_step s command with hsame | ⟨word, dimension, prefixable, heq, -⟩
        · exact hsame
        · exact absurd heq (hadd word dimension prefixable)
      simp only [hsame, List.mem_cons, (hadd _ _ _).symm, false_or]

/-- Known are the words that were, and those that were added and not refused. -/
theorem contains_run_iff (s : Session) (commands : List Command) :
    (s.run commands).1.symbols.contains word = true ↔
      s.symbols.contains word = true ∨
        ∃ dimension prefixable, .addSymbol word dimension prefixable ∈ commands ∧
          IsWord word.toList := by
  rw [symbols_run_iff (P := fun symbols => symbols.contains word = true)
    fun _ _ _ _ => Symbols.contains_offer_iff]
  simp [isWord_iff]

/-- Prefixes are taken by the words that took them, and those that were once added so. -/
theorem isPrefixable_run_iff (s : Session) (commands : List Command) :
    (s.run commands).1.symbols.isPrefixable word = true ↔
      s.symbols.isPrefixable word = true ∨
        ∃ dimension, .addSymbol word dimension true ∈ commands ∧ IsWord word.toList := by
  rw [symbols_run_iff (P := fun symbols => symbols.isPrefixable word = true)
    fun _ _ _ _ => Symbols.isPrefixable_offer_iff]
  simp [isWord_iff]

/-- Whatever was tried, the symbols are words of letters. -/
theorem isAlphabetic_run (commands : List Command) :
    (fresh.run commands).1.symbols.IsAlphabetic := by
  intro word hknown
  rcases (contains_run_iff fresh commands).mp hknown with hbuiltin | ⟨_, _, -, hword⟩
  · exact Symbols.isAlphabetic_builtin word hbuiltin
  · exact isWord_iff.mp hword

/-! ## Prefixes -/

/-- **Separating a prefix is sound and complete.** After any run, with any symbols added or refused:
known are the built-in symbols and the words of letters that were added, and prefixes are taken by
those that took them from the start or were once added so; so every symbol is a word of letters, and
one that takes prefixes is known. A word that is separated is its prefix, or nothing, before a known
symbol with a dimension; it has no prefix exactly when it is known itself, and otherwise the symbol
takes prefixes. A word is not separated exactly when it is not known and has no reading. And of an
unknown word with a reading of `da` and one of `d` the first is found, while any other unknown word
has one reading at most. -/
theorem separation_of_run (commands : List Command) :
    let symbols := (fresh.run commands).1.symbols
    (∀ word,
      (symbols.contains word = true ↔ Symbols.builtin.contains word = true ∨
        ∃ dimension prefixable, .addSymbol word dimension prefixable ∈ commands ∧
          IsWord word.toList) ∧
      (symbols.isPrefixable word = true ↔ Symbols.builtin.isPrefixable word = true ∨
        ∃ dimension, .addSymbol word dimension true ∈ commands ∧ IsWord word.toList) ∧
      (symbols.contains word = true → IsWord word.toList) ∧
      (symbols.isPrefixable word = true →
        IsWord word.toList ∧ symbols.contains word = true)) ∧
    ∀ word,
      (∀ symbol siPrefix, symbols.separate? word = some (symbol, siPrefix) →
        word = siPrefix.elim "" Prefix.symbol ++ symbol ∧
          symbols.contains symbol = true ∧
          (siPrefix = none ↔ symbols.contains word = true) ∧
          (siPrefix ≠ none → symbols.isPrefixable symbol = true) ∧
          ∃ d, symbols.dimensionOf symbol = .ok d) ∧
      (symbols.separate? word = none ↔
        symbols.contains word = false ∧ ∀ p symbol, ¬ symbols.Reads word p symbol) ∧
      (symbols.contains word = false →
        (∀ symbol other, symbols.Reads word .deca symbol → symbols.Reads word .deci other →
          symbols.separate? word = some (symbol, some .deca)) ∧
        (¬ ((∃ symbol, symbols.Reads word .deca symbol) ∧
            ∃ other, symbols.Reads word .deci other) →
          ∀ p q symbol other, symbols.Reads word p symbol → symbols.Reads word q other →
            p = q ∧ symbol = other)) := by
  intro symbols
  have halpha : symbols.IsAlphabetic := isAlphabetic_run commands
  refine ⟨fun word => ⟨contains_run_iff fresh commands, isPrefixable_run_iff fresh commands,
    fun h => isWord_iff.mpr (halpha word h), fun h => ?_⟩, fun word => ⟨?_, ?_, ?_⟩⟩
  · have hknown := Symbols.contains_of_isPrefixable h
    exact ⟨isWord_iff.mpr (halpha word hknown), hknown⟩
  · intro symbol siPrefix h
    obtain ⟨d, hd⟩ := Option.isSome_iff_exists.mp (Symbols.dimensionOf?_isSome h)
    have hdimension : symbols.dimensionOf symbol = .ok d := by rw [Symbols.dimensionOf, hd]
    refine ⟨Symbols.eq_of_separate? h, Symbols.contains_of_separate? h, ?_⟩
    rcases Symbols.separate?_eq_some_iff.mp h with
      ⟨hknown, rfl, rfl⟩ | ⟨hunknown, p, rfl, -, hreads, -⟩
    · exact ⟨iff_of_true rfl hknown, fun h => absurd rfl h, d, hdimension⟩
    · exact ⟨by simp [hunknown], fun _ => hreads.isPrefixable, d, hdimension⟩
  · rw [Symbols.separate?_eq_none_iff]
    refine and_congr_right fun _ => ⟨fun hnone p symbol hreads => ?_, fun hnone p symbol _ => ?_⟩
    · exact hnone p symbol (halpha.ne_empty hreads) hreads
    · exact hnone p symbol
  · intro hunknown
    refine ⟨fun symbol other hdeca _ => ?_, fun hnot p q symbol other hp hq => ?_⟩
    · exact Symbols.separate?_eq_some_iff.mpr (.inr ⟨hunknown, .deca, rfl, halpha.ne_empty hdeca,
        hdeca, fun h => absurd h (by decide)⟩)
    · rcases hp.cases hq with hsame | ⟨rfl, rfl⟩ | ⟨rfl, rfl⟩
      · exact hsame
      · exact absurd ⟨⟨other, hq⟩, symbol, hp⟩ hnot
      · exact absurd ⟨⟨symbol, hp⟩, other, hq⟩ hnot

/-- Both `at` and `t` are given prefixes, the first by an addition that a later one does not undo. So
`dat` has two readings and `da` is its prefix; `kat` is separated into a symbol with a dimension. -/
theorem separation_of_run_dat :
    let commands : List Command :=
      [.addSymbol "at" .mass true, .addSymbol "t2" .mass true, .addSymbol "t" .mass true,
        .addSymbol "at" .time false]
    let symbols := (fresh.run commands).1.symbols
    symbols.contains "dat" = false ∧ symbols.Reads "dat" .deca "t" ∧
      symbols.Reads "dat" .deci "at" ∧ symbols.separate? "dat" = some ("t", some .deca) ∧
      symbols.separate? "kat" = some ("at", some .kilo) ∧
      ∃ d, symbols.dimensionOf "at" = .ok d := by
  intro commands symbols
  obtain ⟨hknown, hwords⟩ := separation_of_run commands
  have hunknown : symbols.contains "dat" = false := by decide +kernel
  have ht : symbols.Reads "dat" .deca "t" :=
    ⟨by decide, (hknown "t").2.1.mpr (.inr ⟨.mass, by simp [commands], isWord_iff.mpr rfl⟩)⟩
  have hat : symbols.Reads "dat" .deci "at" :=
    ⟨by decide, (hknown "at").2.1.mpr (.inr ⟨.mass, by simp [commands], isWord_iff.mpr rfl⟩)⟩
  have hkat : symbols.separate? "kat" = some ("at", some .kilo) := by decide +kernel
  exact ⟨hunknown, ht, hat, ((hwords "dat").2.2 hunknown).1 "t" "at" ht hat, hkat,
    ((hwords "kat").1 "at" _ hkat).2.2.2.2⟩

/-! ## Additions -/

/-- **Adding a symbol is a conservative extension.** Whatever a session understands: a word that is
not of letters is refused, and no text is read otherwise than before. A word of letters is added,
and is then an expression for its dimension. And each text in which the word does not stand, behind
a prefix or without one, is read as before, to the same terms or with the same error. -/
theorem conservative_addSymbol (s : Session) (word : String) (dimension : Dimension)
    (prefixable : Bool) :
    let result := s.step (.addSymbol word dimension prefixable)
    (¬ IsWord word.toList →
      result.2 = .error (.error (.parse (.notAlphabetic word))) ∧
        ∀ text, result.1.symbols.parse text = s.symbols.parse text) ∧
    (IsWord word.toList →
      result.2 = .ok .done ∧ result.1.symbols.parse word = .ok [⟨dimension, 1, none⟩]) ∧
    ∀ text, (∀ other ∈ Expression.words text, other ≠ word ∧
        ∀ p : Prefix, other ≠ p.symbol ++ word) →
      result.1.symbols.parse text = s.symbols.parse text := by
  intro result
  have hsymbols : result.1.symbols = s.symbols.offer word dimension prefixable :=
    step_addSymbol s word dimension prefixable
  refine ⟨fun hword => ⟨?_, fun text => ?_⟩, fun hword => ⟨?_, ?_⟩, fun text h => ?_⟩
  · show (s.step _).2 = _
    rw [step, Symbols.add_of_not_isAlphabetic (mt isWord_iff.mpr hword)]
    rfl
  · rw [hsymbols, Symbols.offer_of_not_isAlphabetic (mt isWord_iff.mpr hword)]
  · show (s.step _).2 = _
    simp only [step, Symbols.add_of_isAlphabetic (isWord_iff.mp hword)]
    rfl
  · rw [hsymbols, Expression.parse_of_isWord hword, Expression.symbolTerm_offer_self hword]
    rfl
  · rw [hsymbols]
    exact Expression.parse_congr fun other hother =>
      Expression.symbolTerm_offer_of_ne (h other hother).1 (h other hother).2

/-- With `am` a symbol, `dam` has a second reading; texts without either are read as before, and so is
one with `gram`, of which `am` is a part behind no prefix. A number in a word is refused. -/
theorem conservative_addSymbol_am :
    let symbols := (fresh.step (.addSymbol "am" .time true)).1.symbols
    let read := "km * (g)/min^2"
    let unread := "kg/gram"
    symbols.parse "am" = .ok [⟨.time, 1, none⟩] ∧
      symbols.parse read = fresh.symbols.parse read ∧
      symbols.parse unread = fresh.symbols.parse unread ∧
      (fresh.step (.addSymbol "m2" .length true)).1.symbols.parse "m2" =
        fresh.symbols.parse "m2" := by
  intro symbols read unread
  obtain ⟨-, hadded, hsame⟩ := conservative_addSymbol fresh "am" .time true
  have hwords : ∀ text ∈ [read, unread], ∀ other ∈ Expression.words text,
      other ≠ "am" ∧ ∀ p ∈ Prefix.all, other ≠ p.symbol ++ "am" := by
    decide +kernel
  have hfree : ∀ text ∈ [read, unread], ∀ other ∈ Expression.words text,
      other ≠ "am" ∧ ∀ p : Prefix, other ≠ p.symbol ++ "am" := by
    intro text htext other hother
    obtain ⟨hne, hprefixed⟩ := hwords text htext other hother
    exact ⟨hne, fun p => hprefixed p p.mem_all⟩
  refine ⟨(hadded (isWord_iff.mpr rfl)).2, hsame read (hfree read (by simp)),
    hsame unread (hfree unread (by simp)), ?_⟩
  exact ((conservative_addSymbol fresh "m2" .length true).1
    (mt isWord_iff.mp (by decide +kernel))).2 "m2"

end Session

end Metrology
