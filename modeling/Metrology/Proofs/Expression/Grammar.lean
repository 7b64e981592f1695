import Mathlib
import Metrology.Proofs.Expression
import Metrology.Proofs.Result

/-!
# Metrology.Proofs.Expression.Grammar -- what a unit expression is

The grammar of unit expressions, said without the reader. An expression, its brackets deleted, is
cut at its slashes and each part at its asterisks; every item, without the blanks around it, is the
lone `1` of a first part or a *factor*: a word of letters that the symbols separate, alone or before
a caret and a signed whole number of 32 bits. `Accepts` says so of an item, and `Denotes` says in
addition which term it stands for.

Reading follows the grammar: each step of the reader succeeds exactly on what the grammar asks for
at its place (`exponent_eq_ok_iff`, `symbolAndExponent_eq_ok_iff`, `itemTerm_eq_ok_iff`), a list of
items is read when each of its items is (`itemTerms_eq_ok_iff`), and an expression when it has at
most two parts (`parse_eq_ok_iff`). Nothing is asked of the symbols, so this holds of the built-in
ones with whatever has been added to them. What is read has whole exponents of at most 32 bits
(`exists_holds_of_parse`).
-/

namespace Metrology

open Binary64

namespace Expression

/-! ## The grammar -/

/-- One or more decimal digits. -/
structure IsNumeral (digits : List Char) : Prop where
  nonempty : digits ≠ []
  isDigit : ∀ c ∈ digits, c.isDigit = true

/-- A whole number in decimal digits, behind a sign or nothing. -/
inductive IsSigned : List Char → Int → Prop
  | unsigned {digits : List Char} :
      IsNumeral digits → IsSigned digits (Nat.ofDigitChars 10 digits 0)
  | plus {digits : List Char} :
      IsNumeral digits → IsSigned ('+' :: digits) (Nat.ofDigitChars 10 digits 0)
  | minus {digits : List Char} :
      IsNumeral digits → IsSigned ('-' :: digits) (-Nat.ofDigitChars 10 digits 0)

/-- A word with its exponent: nothing for one, or a caret and a signed number of 32 bits. -/
inductive IsPower : List Char → List Char → Int → Prop
  | bare (word : List Char) : IsPower word word 1
  | raised (word : List Char) {written : List Char} {z : Int} :
      IsSigned written z → -2 ^ 31 ≤ z → z ≤ 2 ^ 31 - 1 → IsPower (word ++ '^' :: written) word z

/-- One or more letters. -/
structure IsWord (word : List Char) : Prop where
  nonempty : word ≠ []
  isAlpha : ∀ c ∈ word, c.isAlpha = true

/-- Whether an item may stand in an expression, in its first part or below the slash. -/
def Accepts (symbols : Symbols) (below : Bool) (item : List Char) : Prop :=
  (below = false ∧ item = ['1']) ∨
    ∃ word z, IsPower item word z ∧ IsWord word ∧ (symbols.separate? (.ofList word)).isSome

/-- The term that an item stands for. Below the slash an exponent changes its sign, the smallest one
included. -/
inductive Denotes (symbols : Symbols) : Bool → List Char → Term → Prop
  | one : Denotes symbols false ['1'] .marker
  | factor {below : Bool} {item word : List Char} {z : Int} {symbol : String}
      {siPrefix : Option Prefix} {d : Dimension} :
      IsPower item word z → IsWord word →
        symbols.separate? (.ofList word) = some (symbol, siPrefix) →
        symbols.dimensionOf? symbol = some d →
        Denotes symbols below item ⟨d, ofInt (if below then -z else z), siPrefix⟩

/-- The items of a part between its asterisks, without the blanks around them. -/
def partItems (part : List Char) : List (List Char) := (part.splitOn '*').map Text.trim

/-- The parts of an expression between its slashes, each as its items. -/
def parts (text : String) : List (List (List Char)) :=
  ((text.toList.filter fun c => !isGrouping c).splitOn '/').map partItems

/-- The items of an expression in order, each with whether it stands behind a slash. -/
def items (text : String) : List (Bool × List Char) :=
  (parts text).zipIdx.flatMap fun (part, i) => part.map fun item => (decide (i ≠ 0), item)

/-- Whether a text is an expression: of one part or two, with items that may stand where they do. -/
structure IsExpression (symbols : Symbols) (text : String) : Prop where
  parts_le : (parts text).length ≤ 2
  accepts : ∀ item ∈ items text, Accepts symbols item.1 item.2

/-! ## Exponents -/

section

variable {item written word : List Char} {z : Int}

/-- What a sign leaves is a numeral, and the sign is on its value. -/
theorem isSigned_iff :
    IsSigned written z ↔
      IsNumeral (Numeral.readSign written).2 ∧
        z = if (Numeral.readSign written).1 then
              -(Nat.ofDigitChars 10 (Numeral.readSign written).2 0 : Int)
            else Nat.ofDigitChars 10 (Numeral.readSign written).2 0 := by
  constructor
  · intro h
    cases h with
    | unsigned h =>
      rw [Text.readSign_of_isDigit h.isDigit]
      exact ⟨h, rfl⟩
    | plus h => exact ⟨h, rfl⟩
    | minus h => exact ⟨h, rfl⟩
  · rintro ⟨h, rfl⟩
    unfold Numeral.readSign at h ⊢
    split at h
    · exact .minus h
    · exact .plus h
    · exact .unsigned h

/-- A signed number holds no caret, and something else. -/
theorem IsSigned.notMem_caret (h : IsSigned written z) : '^' ∉ written := by
  have hdigits : ∀ digits, IsNumeral digits → '^' ∉ digits :=
    fun digits hd hmem => absurd (hd.isDigit '^' hmem) (by decide)
  cases h with
  | unsigned h => exact hdigits _ h
  | plus h => simpa using hdigits _ h
  | minus h => simpa using hdigits _ h

theorem IsSigned.ne_nil (h : IsSigned written z) : written ≠ [] := by
  cases h with
  | unsigned h => exact h.nonempty
  | plus h => exact List.cons_ne_nil _ _
  | minus h => exact List.cons_ne_nil _ _

theorem inExponentRange_iff : inExponentRange z = true ↔ -2 ^ 31 ≤ z ∧ z ≤ 2 ^ 31 - 1 := by
  simp [inExponentRange]

theorem isNumeral_iff {digits : List Char} :
    IsNumeral digits ↔ (digits.isEmpty || !digits.all Char.isDigit) = false := by
  simp only [Bool.or_eq_false_iff, List.isEmpty_eq_false_iff, Bool.not_eq_false', List.all_eq_true]
  exact ⟨fun h => ⟨h.nonempty, h.isDigit⟩, fun h => ⟨h.1, h.2⟩⟩

theorem digitsValue_eq {digits : List Char} (h : IsNumeral digits) :
    Numeral.digitsValue 10 digits = Nat.ofDigitChars 10 digits 0 :=
  Text.foldl_digitValue h.isDigit 0

/-- What is read behind a caret is a signed number of 32 bits. -/
theorem exponent_eq_ok_iff :
    exponent item written = .ok z ↔ IsSigned written z ∧ -2 ^ 31 ≤ z ∧ z ≤ 2 ^ 31 - 1 := by
  rw [← inExponentRange_iff]
  constructor
  · intro h
    unfold exponent at h
    -- No second caret, something written, digits behind the sign, and a value in range.
    obtain ⟨_, h⟩ := Result.refusal_eq_ok_iff.mp h
    obtain ⟨_, h⟩ := Result.refusal_eq_ok_iff.mp h
    rw [isSigned_iff]
    generalize Numeral.readSign written = sign at h ⊢
    obtain ⟨negative, digits⟩ := sign
    obtain ⟨hdigits, h⟩ := Result.refusal_eq_ok_iff.mp h
    have hnumeral : IsNumeral digits := isNumeral_iff.mpr (Bool.eq_false_iff.mpr hdigits)
    dsimp only at h
    rw [digitsValue_eq hnumeral] at h
    obtain ⟨hrange, rfl⟩ := Result.choice_eq_ok_iff.mp h
    exact ⟨⟨hnumeral, rfl⟩, hrange⟩
  · rintro ⟨h, hrange⟩
    have hcaret : written.contains '^' = false := by simpa using h.notMem_caret
    have hempty : written.isEmpty = false := List.isEmpty_eq_false_iff.mpr h.ne_nil
    obtain ⟨hnumeral, rfl⟩ := isSigned_iff.mp h
    rw [exponent, hcaret, if_neg Bool.false_ne_true, hempty, if_neg Bool.false_ne_true]
    dsimp only
    rw [isNumeral_iff.mp hnumeral, if_neg Bool.false_ne_true, digitsValue_eq hnumeral,
      if_pos hrange]

/-! ## Items -/

/-- The word of an item is what stands before its first caret; behind one stands an exponent. -/
theorem symbolAndExponent_eq_ok_iff {w : Option Int} :
    symbolAndExponent item = .ok (word, w) ↔
      '^' ∉ word ∧
        ((w = none ∧ item = word) ∨
          ∃ written z, w = some z ∧ item = word ++ '^' :: written ∧
            IsSigned written z ∧ -2 ^ 31 ≤ z ∧ z ≤ 2 ^ 31 - 1) := by
  unfold symbolAndExponent
  cases hcut : Text.cutAt? '^' item with
  | none =>
    have hfree : '^' ∉ item := Text.cutAt?_eq_none_iff.mp hcut
    constructor
    · intro h
      cases h
      exact ⟨hfree, .inl ⟨rfl, rfl⟩⟩
    · rintro ⟨_, ⟨rfl, rfl⟩ | ⟨written, z, _, rfl, _⟩⟩
      · rfl
      · exact absurd (by simp) hfree
  | some parts =>
    obtain ⟨front, back⟩ := parts
    obtain ⟨rfl, hfree⟩ := Text.eq_of_cutAt?_eq_some hcut
    constructor
    · intro h
      obtain ⟨z, hz, heq⟩ := Result.map_eq_ok h
      cases heq
      exact ⟨hfree, .inr ⟨back, z, rfl, rfl, exponent_eq_ok_iff.mp hz⟩⟩
    · rintro ⟨hword, ⟨rfl, rfl⟩ | ⟨written, z, rfl, heq, hz⟩⟩
      · exact absurd (by simp) hword
      · -- The first caret of an item is one place, so the word and what is written are the same.
        have hcut' := Text.cutAt?_append hword written
        rw [← heq, Text.cutAt?_append hfree back] at hcut'
        cases hcut'
        show (exponent _ _).map _ = _
        rw [exponent_eq_ok_iff.mpr hz]
        rfl

/-- So an item with an exponent is a word that holds no caret, and its exponent or none. -/
theorem isPower_of_symbolAndExponent {w : Option Int}
    (h : symbolAndExponent item = .ok (word, w)) : IsPower item word (w.getD 1) := by
  obtain ⟨-, ⟨rfl, rfl⟩ | ⟨written, z, rfl, rfl, hz, hlow, hhigh⟩⟩ :=
    symbolAndExponent_eq_ok_iff.mp h
  · exact .bare item
  · exact .raised word hz hlow hhigh

theorem IsPower.symbolAndExponent (h : IsPower item word z) (hcaret : '^' ∉ word) :
    ∃ w, symbolAndExponent item = .ok (word, w) ∧ w.getD 1 = z := by
  cases h with
  | bare => exact ⟨none, symbolAndExponent_eq_ok_iff.mpr ⟨hcaret, .inl ⟨rfl, rfl⟩⟩, rfl⟩
  | raised _ hz hlow hhigh =>
    exact ⟨some z, symbolAndExponent_eq_ok_iff.mpr
      ⟨hcaret, .inr ⟨_, z, rfl, rfl, hz, hlow, hhigh⟩⟩, rfl⟩

theorem isWord_iff : IsWord word ↔ Text.isAlphabetic word = true := by
  simp only [Text.isAlphabetic, Bool.and_eq_true, Bool.not_eq_true', List.isEmpty_eq_false_iff,
    List.all_eq_true]
  exact ⟨fun h => ⟨h.nonempty, h.isAlpha⟩, fun h => ⟨h.1, h.2⟩⟩

theorem IsWord.notMem (h : IsWord word) {c : Char} (hc : c.isAlpha = false) : c ∉ word := by
  intro hmem
  rw [h.isAlpha c hmem] at hc
  cases hc

theorem IsPower.ne_nil (h : IsPower item word z) (hword : IsWord word) : item ≠ [] := by
  cases h with
  | bare => exact hword.nonempty
  | raised => exact List.append_ne_nil_of_left_ne_nil hword.nonempty _

end

section

variable {symbols : Symbols} {below : Bool}

/-- The term of a word is that of the symbol and the prefix which it is separated into. -/
theorem symbolTerm_eq_ok_iff {word : String} {z : Int} {t : Term} :
    symbolTerm symbols word z = .ok t ↔
      ∃ symbol siPrefix d, symbols.separate? word = some (symbol, siPrefix) ∧
        symbols.dimensionOf? symbol = some d ∧ ⟨d, ofInt z, siPrefix⟩ = t := by
  unfold symbolTerm Symbols.dimensionOf
  constructor
  · intro h
    split at h
    · cases h
    · next symbol siPrefix hseparate =>
      obtain ⟨d, hd, rfl⟩ := Result.map_eq_ok h
      split at hd
      · next hd' =>
        cases hd
        exact ⟨symbol, siPrefix, d, hseparate, hd', rfl⟩
      · cases hd
  · rintro ⟨symbol, siPrefix, d, hseparate, hd, rfl⟩
    rw [hseparate]
    dsimp only
    rw [hd]
    rfl

/-- An item is read as the term it stands for, and only then. -/
theorem itemTerm_eq_ok_iff {item : List Char} {t : Term} :
    itemTerm symbols below item = .ok t ↔ Denotes symbols below item t := by
  constructor
  · intro h
    unfold itemTerm at h
    obtain ⟨-, h⟩ := Result.refusal_eq_ok_iff.mp h
    split at h
    · cases h
    · next word w hsplit =>
      have hpower := isPower_of_symbolAndExponent hsplit
      split at h
      · next hone =>
        -- The lone one has no exponent, so it is all of the item.
        obtain ⟨habove, h⟩ := Result.refusal_eq_ok_iff.mp h
        obtain ⟨hbare, h⟩ := Result.refusal_eq_ok_iff.mp h
        cases h
        rw [Bool.not_eq_true] at habove
        rw [Bool.not_eq_true, Option.isSome_eq_false_iff, Option.isNone_iff_eq_none] at hbare
        subst habove hbare hone
        obtain ⟨-, ⟨-, rfl⟩ | ⟨written, z, hz, -⟩⟩ := symbolAndExponent_eq_ok_iff.mp hsplit
        · exact .one
        · cases hz
      · obtain ⟨halpha, h⟩ := Result.refusal_eq_ok_iff.mp h
        obtain ⟨symbol, siPrefix, d, hseparate, hd, rfl⟩ := symbolTerm_eq_ok_iff.mp h
        have hword : IsWord word := isWord_iff.mpr (by simpa using halpha)
        exact .factor hpower hword hseparate hd
  · intro h
    cases h with
    | one => rfl
    | @factor _ _ word _ _ _ _ hpower hword hseparate hd =>
      obtain ⟨w, hsplit, rfl⟩ := hpower.symbolAndExponent (hword.notMem (by decide))
      have hempty : item.isEmpty = false :=
        List.isEmpty_eq_false_iff.mpr (hpower.ne_nil hword)
      have hdigit : '1' ∉ word := hword.notMem (by decide)
      have hone : word ≠ ['1'] := fun heq => hdigit (heq ▸ List.mem_cons_self)
      rw [itemTerm, hempty, if_neg Bool.false_ne_true, hsplit]
      dsimp only
      rw [if_neg hone, isWord_iff.mp hword]
      exact symbolTerm_eq_ok_iff.mpr ⟨_, _, _, hseparate, hd, rfl⟩

/-- The items that may stand in an expression are those that stand for a term. -/
theorem accepts_iff {item : List Char} :
    Accepts symbols below item ↔ ∃ t, Denotes symbols below item t := by
  constructor
  · rintro (⟨rfl, rfl⟩ | ⟨word, z, hpower, hword, hseparate⟩)
    · exact ⟨_, .one⟩
    · obtain ⟨⟨symbol, siPrefix⟩, hseparate⟩ := Option.isSome_iff_exists.mp hseparate
      obtain ⟨d, hd⟩ := Option.isSome_iff_exists.mp (Symbols.dimensionOf?_isSome hseparate)
      exact ⟨_, .factor hpower hword hseparate hd⟩
  · rintro ⟨t, ht⟩
    cases ht with
    | one => exact .inl ⟨rfl, rfl⟩
    | factor hpower hword hseparate hd =>
      exact .inr ⟨_, _, hpower, hword, Option.isSome_iff_exists.mpr ⟨_, hseparate⟩⟩

/-! ## Parts -/

/-- A list of items is read when each of them is, and gives their terms in order. -/
theorem itemTerms_eq_ok_iff {list : List (List Char)} {units : Units} :
    itemTerms symbols below list = .ok units ↔
      List.Forall₂ (Denotes symbols below) (list.map Text.trim) units := by
  induction list generalizing units with
  | nil =>
    rw [itemTerms, List.map_nil, List.forall₂_nil_left_iff, Except.ok.injEq, eq_comm]
  | cons item list ih =>
    rw [itemTerms, List.map_cons, List.forall₂_cons_left_iff]
    constructor
    · intro h
      split at h
      · cases h
      · next t ht =>
        obtain ⟨rest, hrest, rfl⟩ := Result.map_eq_ok h
        exact ⟨t, rest, itemTerm_eq_ok_iff.mp ht, ih.mp hrest, rfl⟩
    · rintro ⟨t, rest, ht, hrest, rfl⟩
      rw [itemTerm_eq_ok_iff.mpr ht, ih.mpr hrest]
      rfl

theorem sideTerms_eq_ok_iff {side : List Char} {units : Units} :
    sideTerms symbols below side = .ok units ↔
      List.Forall₂ (Denotes symbols below) (partItems side) units := by
  rw [sideTerms, itemTerms_eq_ok_iff, Text.separated_eq_splitOn, partItems]

/-- A numerator and a denominator are read when both are, one after the other. -/
theorem bothSides_eq_ok_iff {above below : List Char} {units : Units} :
    (match sideTerms symbols false above with
      | .error e => Except.error e
      | .ok top => (sideTerms symbols true below).map (top ++ ·)) = .ok units ↔
      ∃ top bottom, sideTerms symbols false above = .ok top ∧
        sideTerms symbols true below = .ok bottom ∧ top ++ bottom = units := by
  constructor
  · intro h
    split at h
    · cases h
    · next top htop =>
      obtain ⟨bottom, hbottom, heq⟩ := Result.map_eq_ok h
      exact ⟨top, bottom, htop, hbottom, heq⟩
  · rintro ⟨top, bottom, htop, hbottom, rfl⟩
    rw [htop, hbottom]
    rfl

/-- The items of two parts stand for terms when those of each part do. -/
theorem forall₂_append_iff {above below : List (List Char)} {units : Units} :
    List.Forall₂ (fun item t => Denotes symbols item.1 item.2 t)
        (above.map (Prod.mk false) ++ below.map (Prod.mk true)) units ↔
      ∃ top bottom, List.Forall₂ (Denotes symbols false) above top ∧
        List.Forall₂ (Denotes symbols true) below bottom ∧ top ++ bottom = units := by
  constructor
  · intro h
    have hflip := h.flip
    refine ⟨units.take above.length, units.drop above.length, ?_, ?_, List.take_append_drop _ _⟩
    · have htop := (List.forall₂_take_append _ _ _ hflip).flip
      rwa [List.length_map, List.forall₂_map_left_iff] at htop
    · have hbottom := (List.forall₂_drop_append _ _ _ hflip).flip
      rwa [List.length_map, List.forall₂_map_left_iff] at hbottom
  · rintro ⟨top, bottom, htop, hbottom, rfl⟩
    apply List.rel_append
    · exact List.forall₂_map_left_iff.mpr htop
    · exact List.forall₂_map_left_iff.mpr hbottom

/-! ## Whole expressions -/

/-- An expression is read when it has no third part and each item stands for a term, and gives
these terms in order. -/
theorem parse_eq_ok_iff {text : String} {units : Units} :
    symbols.parse text = .ok units ↔
      (parts text).length ≤ 2 ∧
        List.Forall₂ (fun item t => Denotes symbols item.1 item.2 t) (items text) units := by
  unfold items parts Symbols.parse
  rw [Text.separated_eq_splitOn]
  -- The text matters only through the parts that it is cut into.
  have hne := List.splitOn_ne_nil '/' (text.toList.filter fun c => !isGrouping c)
  generalize (text.toList.filter fun c => !isGrouping c).splitOn '/' = cut at hne ⊢
  match cut with
  | [] => exact absurd rfl hne
  | [above] =>
    refine sideTerms_eq_ok_iff.trans ?_
    simp
  | [above, below] =>
    have hitems : ([above, below].map partItems).zipIdx.flatMap
        (fun (part, i) => part.map fun item => (decide (i ≠ 0), item)) =
          (partItems above).map (Prod.mk false) ++ (partItems below).map (Prod.mk true) := by
      simp
    refine bothSides_eq_ok_iff.trans ?_
    rw [hitems, forall₂_append_iff]
    simp [sideTerms_eq_ok_iff]
  | _ :: _ :: _ :: _ => simp

/-- Terms can be found for the items of a list when one can be found for each. -/
theorem exists_denotes_iff {list : List (Bool × List Char)} :
    (∃ units, List.Forall₂ (fun item t => Denotes symbols item.1 item.2 t) list units) ↔
      ∀ item ∈ list, Accepts symbols item.1 item.2 := by
  induction list with
  | nil => simp
  | cons item list ih =>
    rw [List.forall_mem_cons, ← ih, accepts_iff]
    constructor
    · rintro ⟨units, h⟩
      cases h with
      | cons ht hrest => exact ⟨⟨_, ht⟩, _, hrest⟩
    · rintro ⟨⟨t, ht⟩, units, hunits⟩
      exact ⟨t :: units, .cons ht hunits⟩

/-- What is read is the expressions. -/
theorem exists_parse_eq_ok_iff {text : String} :
    (∃ units, symbols.parse text = .ok units) ↔ IsExpression symbols text := by
  simp only [parse_eq_ok_iff, exists_and_left, exists_denotes_iff]
  exact ⟨fun h => ⟨h.1, h.2⟩, fun h => ⟨h.1, h.2⟩⟩

/-! ## Exponents that are read -/

theorem IsPower.natAbs_le {item word : List Char} {z : Int} (h : IsPower item word z) :
    z.natAbs ≤ 2 ^ 31 := by
  cases h with
  | bare => decide
  | raised _ _ hlow hhigh => omega

theorem Denotes.exists_holds {item : List Char} {t : Term} (h : Denotes symbols below item t) :
    ∃ z : Int, z.natAbs ≤ 2 ^ 31 ∧ t.exponent.Holds z := by
  cases h with
  | one => exact ⟨1, by decide, holds_one⟩
  | factor hpower _ _ _ =>
    have hsize := hpower.natAbs_le
    refine ⟨_, ?_, holds_ofInt ?_⟩
    · split <;> omega
    · show _ ≤ 2 ^ 53
      split <;> omega

/-- Whatever is read has whole exponents of at most 32 bits. -/
theorem exists_holds_of_parse {text : String} {units : Units} (h : symbols.parse text = .ok units)
    {t : Term} (ht : t ∈ units) : ∃ z : Int, z.natAbs ≤ 2 ^ 31 ∧ t.exponent.Holds z := by
  obtain ⟨i, hi, rfl⟩ := List.getElem_of_mem ht
  have hterms := (parse_eq_ok_iff.mp h).2
  exact (hterms.get (hterms.length_eq ▸ hi) hi).exists_holds

end

end Expression

open Expression

/-- Whatever the symbols, the texts that are read are the expressions, every other text is an error,
and reading gives one term for each item, in order: the one that the item stands for. -/
theorem Symbols.parse_grammar (symbols : Symbols) (text : String) :
    ((∃ units, symbols.parse text = .ok units) ↔ IsExpression symbols text) ∧
      ((∃ e, symbols.parse text = .error e) ↔ ¬ IsExpression symbols text) ∧
      ∀ units, symbols.parse text = .ok units ↔
        (parts text).length ≤ 2 ∧
          List.Forall₂ (fun item t => Denotes symbols item.1 item.2 t) (items text) units := by
  refine ⟨exists_parse_eq_ok_iff, ?_, fun units => parse_eq_ok_iff⟩
  rw [← exists_parse_eq_ok_iff]
  cases symbols.parse text with
  | error e => simp
  | ok units => simp

/-- Blanks around an item say nothing; before a caret they are part of what should be a word. -/
example :
    Units.parse "[km] * s^+2\t/ (day)" =
        .ok [⟨.length, 1, some .kilo⟩, ⟨.time, 2, none⟩, ⟨.time, -1, none⟩] ∧
      Units.parse "m ^2" = .error (.misplacedNumber "m ^2") := by
  decide +kernel

end Metrology
