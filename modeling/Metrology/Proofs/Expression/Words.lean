import Mathlib
import Metrology.Proofs.Expression.Grammar
import Metrology.Proofs.Symbols.Addition

/-!
# Metrology.Proofs.Expression.Words -- the words of an expression

The word of an item is what stands before its first caret. Most of what reading tests is settled by
the text: how it is cut, what its exponents are, whether its words are of letters. The symbols come
in with the terms of the words, and only there (`parse_congr`); so tables that give the words of a
text the same terms give the text the same reading, and the same error if it has none. A word alone
is an expression, and is read as its term (`parse_of_isWord`).

When a symbol is added, the term of a word is the one it had, unless the word is the one added or
has that one behind a prefix (`symbolTerm_offer_of_ne`).
-/

namespace Metrology

open Metrology.Units

namespace Expression

/-- The words of the items of an expression, in order. -/
def words (text : String) : List String :=
  (items text).map fun item => .ofList (Text.before '^' item.2)

variable {symbols next : Symbols} {below : Bool}

theorem eq_before_of_symbolAndExponent {item word : List Char} {w : Option Int}
    (h : symbolAndExponent item = .ok (word, w)) : word = Text.before '^' item := by
  obtain ⟨hcaret, ⟨-, rfl⟩ | ⟨written, z, -, rfl, -⟩⟩ := symbolAndExponent_eq_ok_iff.mp h
  · exact (Text.before_of_notMem hcaret).symm
  · exact (Text.before_append hcaret written).symm

theorem itemTerm_congr {item : List Char}
    (h : ∀ z, symbolTerm next (.ofList (Text.before '^' item)) z =
      symbolTerm symbols (.ofList (Text.before '^' item)) z) :
    itemTerm next below item = itemTerm symbols below item := by
  unfold itemTerm
  cases hsplit : symbolAndExponent item with
  | error e => rfl
  | ok parts =>
    obtain ⟨word, w⟩ := parts
    rw [← eq_before_of_symbolAndExponent hsplit] at h
    dsimp only
    rw [h]

theorem itemTerms_congr {list : List (List Char)}
    (h : ∀ item ∈ list.map Text.trim, itemTerm next below item = itemTerm symbols below item) :
    itemTerms next below list = itemTerms symbols below list := by
  induction list with
  | nil => rfl
  | cons item list ih =>
    rw [List.map_cons, List.forall_mem_cons] at h
    rw [itemTerms, itemTerms, h.1, ih h.2]

theorem sideTerms_congr {side : List Char}
    (h : ∀ item ∈ partItems side, itemTerm next below item = itemTerm symbols below item) :
    sideTerms next below side = sideTerms symbols below side := by
  rw [partItems, ← Text.separated_eq_splitOn] at h
  exact itemTerms_congr h

/-- Symbols that give the same terms to the words of a text give it the same reading. -/
theorem parse_congr {text : String}
    (h : ∀ word ∈ words text, ∀ z, symbolTerm next word z = symbolTerm symbols word z) :
    next.parse text = symbols.parse text := by
  have hitems : ∀ item ∈ items text, ∀ below,
      itemTerm next below item.2 = itemTerm symbols below item.2 :=
    fun item hitem below => itemTerm_congr (h _ (List.mem_map_of_mem hitem))
  unfold items parts at hitems
  unfold Symbols.parse
  rw [Text.separated_eq_splitOn]
  -- The text matters only through the parts that it is cut into.
  generalize (text.toList.filter fun c => !isGrouping c).splitOn '/' = cut at hitems ⊢
  match cut with
  | [] => rfl
  | [above] => exact sideTerms_congr fun item hitem => hitems (false, item) (by simpa) false
  | [above, below] =>
    dsimp only
    rw [sideTerms_congr fun item hitem => hitems (false, item) (by simp [hitem]) false,
      sideTerms_congr fun item hitem => hitems (true, item) (by simp [hitem]) true]
  | _ :: _ :: _ :: _ => rfl

/-! ## A word alone -/

theorem itemTerm_of_isWord {word : String} (h : IsWord word.toList) :
    itemTerm symbols false word.toList = symbolTerm symbols word 1 := by
  have hcaret : '^' ∉ word.toList := h.notMem (by decide)
  have hone : word.toList ≠ ['1'] := by
    intro heq
    have hdigit : '1' ∉ word.toList := h.notMem (by decide)
    exact hdigit (heq ▸ List.mem_cons_self)
  rw [itemTerm, List.isEmpty_eq_false_iff.mpr h.nonempty, if_neg Bool.false_ne_true,
    symbolAndExponent, Text.cutAt?_of_notMem hcaret]
  dsimp only
  rw [if_neg hone, isWord_iff.mp h, String.ofList_toList]
  rfl

theorem parse_of_isWord {word : String} (h : IsWord word.toList) :
    symbols.parse word = (symbolTerm symbols word 1).map fun t => [t] := by
  have hbrackets : ∀ c ∈ word.toList, isGrouping c = false :=
    fun c hc => isGrouping_of_isFactorChar (isFactorChar_of_isAlpha (h.isAlpha c hc))
  have hblanks : ∀ c ∈ word.toList, Text.isBlank c = false :=
    fun c hc => isBlank_of_isFactorChar (isFactorChar_of_isAlpha (h.isAlpha c hc))
  rw [parse_eq_sideTerms hbrackets (h.notMem (by decide)), sideTerms,
    Text.separated_of_notMem (h.notMem (by decide)), itemTerms, Text.trim_of_forall hblanks,
    itemTerm_of_isWord h]
  cases symbolTerm symbols word 1 <;> rfl

/-! ## The terms when a symbol has been added -/

variable {word other : String} {dimension : Dimension} {prefixable : Bool}

/-- The word added stands for its dimension. -/
theorem symbolTerm_offer_self (h : IsWord word.toList) (exponent : Int) :
    symbolTerm (symbols.offer word dimension prefixable) word exponent =
      .ok ⟨dimension, Binary64.ofInt exponent, none⟩ := by
  have hknown : (symbols.offer word dimension prefixable).contains word = true :=
    Symbols.contains_offer_iff.mpr (.inr ⟨rfl, isWord_iff.mp h⟩)
  exact symbolTerm_eq_ok_iff.mpr ⟨word, none, dimension, if_pos hknown,
    Symbols.dimensionOf?_offer_self (isWord_iff.mp h), rfl⟩

/-- A word has the term it had, unless it is the word added or has that one behind a prefix. -/
theorem symbolTerm_offer_of_ne (hne : other ≠ word) (h : ∀ p : Prefix, other ≠ p.symbol ++ word)
    (exponent : Int) :
    symbolTerm (symbols.offer word dimension prefixable) other exponent =
      symbolTerm symbols other exponent := by
  rw [symbolTerm, symbolTerm, Symbols.separate?_offer_of_ne hne h]
  split
  · rfl
  · next symbol siPrefix hseparate =>
    -- The symbol that the word is separated into is not the one added either.
    have hsymbol : symbol ≠ word := by
      rintro rfl
      have heq := Symbols.eq_of_separate? hseparate
      cases siPrefix with
      | none => exact hne (heq.trans String.empty_append)
      | some p => exact h p heq
    simp only [Symbols.dimensionOf, Symbols.dimensionOf?_offer_of_ne hsymbol]

end Expression

end Metrology
