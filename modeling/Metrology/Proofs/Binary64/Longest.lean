import Mathlib
import Metrology.Proofs.Binary64.Numeral
import Metrology.Proofs.Text.Reader

/-!
# Metrology.Proofs.Binary64.Longest -- the number at the front of a text is the longest there

A text starts with many numbers or with none: `1`, `1.`, `1.5` and `1.5e3` all stand at the front of
`1.5e3x`. Reading takes the longest of them (`read?_eq_some_iff`), and gives nothing only where no
number stands at the front (`read?_eq_none_iff`). Both are told by the texts that are numbers as a
whole, `IsNumber`.

That is built up from the parts of a number text, each of which is read the longest way. Of the
three kinds of number texts, words start with a letter and the others do not; and behind a `0x` the
decimal text is over, so that a hexadecimal one is longer wherever there is one.
-/

namespace Metrology

namespace Numeral

open Text

/-! ## Parts of a number text -/

section

variable {α : Type}

theorem isSettled_readWord? (word : List Char) (a : α) :
    IsSettled fun s => (readWord? word s).map fun rest => (a, rest) where
  keepsFront := by
    intro s b rest h
    obtain ⟨rest', hread, heq⟩ := Option.map_eq_some_iff.mp h
    cases heq
    obtain ⟨front, rfl, hfront⟩ := readWord?_eq_some_iff.mp hread
    refine ⟨front, rfl, fun back _ => Option.map_eq_some_iff.mpr ⟨back, ?_, rfl⟩⟩
    exact readWord?_eq_some_iff.mpr ⟨front, rfl, hfront⟩
  extend := by
    intro s b rest h more
    obtain ⟨rest', hread, heq⟩ := Option.map_eq_some_iff.mp h
    cases heq
    obtain ⟨front, rfl, hfront⟩ := readWord?_eq_some_iff.mp hread
    refine .inl (Option.map_eq_some_iff.mpr ⟨rest ++ more, ?_, rfl⟩)
    exact readWord?_eq_some_iff.mpr ⟨front, List.append_assoc _ _ _, hfront⟩

theorem isSettled_readSign : IsSettled fun s => some (readSign s) where
  keepsFront := by
    intro s negative rest h
    rw [Option.some.injEq] at h
    unfold readSign at h
    split at h
    · cases h
      exact ⟨['-'], rfl, fun back _ => rfl⟩
    · cases h
      exact ⟨['+'], rfl, fun back _ => rfl⟩
    · next hminus hplus =>
      cases h
      refine ⟨[], rfl, fun back hback => ?_⟩
      obtain ⟨more, rfl⟩ := hback
      show some (readSign back) = _
      unfold readSign
      split
      · exact absurd rfl (hminus _)
      · exact absurd rfl (hplus _)
      · rfl
  extend := by
    intro s negative rest h more
    rw [Option.some.injEq] at h
    unfold readSign at h
    split at h
    · cases h
      exact .inl rfl
    · cases h
      exact .inl rfl
    · next hminus hplus =>
      cases h
      cases s with
      | nil =>
        refine .inr ⟨rfl, (readSign more).1, (readSign more).2, rfl, ?_⟩
        unfold readSign
        split <;> simp
      | cons c s =>
        left
        show some (readSign (c :: (s ++ more))) = _
        unfold readSign
        split
        · next heq =>
          cases heq
          exact absurd rfl (hminus s)
        · next heq =>
          cases heq
          exact absurd rfl (hplus s)
        · rfl

end

/-- A scale that is there: its mark, a sign or none, and digits. -/
def readMarked? (mark : Char) (s : List Char) : Option (Int × List Char) :=
  ((readWord? [mark] s).map fun rest => ((), rest)).bind fun marked =>
    (some (readSign marked.2)).bind fun signed =>
      (readRun? Char.isDigit signed.2).map fun run =>
        (if signed.1 then -(digitsValue 10 run.1 : Int) else digitsValue 10 run.1, run.2)

theorem isLongest_readMarked? (mark : Char) : IsLongest (readMarked? mark) := by
  have hrun := fun negative : Bool => (isSettled_readRun? Char.isDigit).isLongest.map
    fun digits => if negative then -(digitsValue 10 digits : Int) else digitsValue 10 digits
  have hsigned := IsLongest.bind isSettled_readSign hrun fun _ => .inl rfl
  exact IsLongest.bind (isSettled_readWord? [mark] ()) (fun _ => hsigned) fun _ => .inl rfl

theorem readScale_eq (mark : Char) (s : List Char) :
    readScale mark s = (readMarked? mark s).getD (0, s) := by
  cases s with
  | nil => rfl
  | cons c s =>
    rw [readScale, readMarked?, readWord?, readWord?]
    by_cases hc : c.toLower = mark
    · simp only [hc, decide_true, Bool.true_and, if_true, Option.map_some, Option.bind_some, readRun?]
      by_cases hdigits : ((readSign s).2.takeWhile Char.isDigit).isEmpty = true
      · simp [hdigits]
      · simp [hdigits]
    · simp [hc]

theorem isLongest_readScale (mark : Char) : IsLongest fun s => some (readScale mark s) := by
  have h := (isLongest_readMarked? mark).optional 0
  simp only [← readScale_eq] at h
  exact h

/-- A name in brackets that is there, behind what stands for `a`. -/
def readName? {α : Type} (a : α) (s : List Char) : Option (α × List Char) :=
  (readChar? '(' s).bind fun opened =>
    (some ((), opened.2.dropWhile fun c => c.isAlphanum || c = '_')).bind fun name =>
      (readChar? ')' name.2).map fun closed => (a, closed.2)

theorem isLongest_readName? {α : Type} (a : α) : IsLongest (readName? a) := by
  have hclosed := fun _ : Unit => (isSettled_readChar? ')').isLongest.map fun _ => a
  have hname := IsLongest.bind (isSettled_dropWhile fun c => c.isAlphanum || c = '_') hclosed
    fun _ => .inl rfl
  exact IsLongest.bind (isSettled_readChar? '(') (fun _ => hname) fun _ => .inl rfl

theorem skipName_eq {α : Type} (a : α) (s : List Char) :
    (a, skipName s) = (readName? a s).getD (a, s) := by
  unfold skipName
  split
  · next s =>
    rw [readName?, readChar?_cons, Option.bind_some, Option.bind_some]
    split
    · next t hclosed => rw [hclosed, readChar?_cons, Option.map_some, Option.getD_some]
    · next hopen =>
      cases hread : readChar? ')' (s.dropWhile fun c => c.isAlphanum || c = '_') with
      | none => rfl
      | some closed => exact absurd (readChar?_eq_some_iff.mp hread) (hopen _)
  · next hnone =>
    cases hread : readChar? '(' s with
    | none => rw [readName?, hread]; rfl
    | some opened => exact absurd (readChar?_eq_some_iff.mp hread) (hnone _)

theorem isLongest_skipName {α : Type} (a : α) : IsLongest fun s => some (a, skipName s) := by
  have h := (isLongest_readName? a).optional a
  simp only [← skipName_eq] at h
  exact h

/-- Digits with at most one point, as a reader. -/
def readPointed? (p : Char → Bool) (s : List Char) :
    Option ((List Char × List Char) × List Char) :=
  (readDigits? p s).map fun digits => ((digits.1, digits.2.1), digits.2.2)

section

variable {p : Char → Bool} {s t : List Char}

/-- Digits before a point, and those after it: some of either. -/
theorem readPointed?_of_point (h : s.dropWhile p = '.' :: t)
    (hdigits : (s.takeWhile p).isEmpty = false ∨ (t.takeWhile p).isEmpty = false) :
    readPointed? p s = some ((s.takeWhile p, t.takeWhile p), t.dropWhile p) := by
  rw [readPointed?, readDigits?, h]
  simp only
  rw [if_neg (by rcases hdigits with h | h <;> simp [h]), Option.map_some]

/-- Digits without a point behind them. -/
theorem readPointed?_of_noPoint (h : ∀ t, s.dropWhile p ≠ '.' :: t)
    (hdigits : (s.takeWhile p).isEmpty = false) :
    readPointed? p s = some ((s.takeWhile p, []), s.dropWhile p) := by
  rw [readPointed?, readDigits?]
  split
  · next t heq => exact absurd heq (h t)
  · rw [hdigits]
    rfl

theorem readPointed?_cases {digits : List Char × List Char} {rest : List Char}
    (h : readPointed? p s = some (digits, rest)) :
    (∃ t, s.dropWhile p = '.' :: t ∧ digits = (s.takeWhile p, t.takeWhile p) ∧
      rest = t.dropWhile p ∧
      ((s.takeWhile p).isEmpty = false ∨ (t.takeWhile p).isEmpty = false)) ∨
    ((∀ t, s.dropWhile p ≠ '.' :: t) ∧ digits = (s.takeWhile p, []) ∧ rest = s.dropWhile p ∧
      (s.takeWhile p).isEmpty = false) := by
  obtain ⟨⟨whole, fraction, rest'⟩, hread, heq⟩ := Option.map_eq_some_iff.mp h
  cases heq
  unfold readDigits? at hread
  dsimp only at hread
  split at hread
  · next t hpoint =>
    split_ifs at hread with hempty
    cases hread
    refine .inl ⟨t, hpoint, rfl, rfl, ?_⟩
    rwa [Bool.and_eq_true, not_and_or, Bool.not_eq_true, Bool.not_eq_true] at hempty
  · next hnone =>
    split_ifs at hread with hempty
    cases hread
    exact .inr ⟨hnone, rfl, rfl, Bool.eq_false_iff.mpr hempty⟩

/-- The digits end where they ended, or go on if nothing was left. A point is no digit, so what
follows a run of digits is told from its first character. -/
theorem isSettled_readPointed? (hp : p '.' = false) : IsSettled (readPointed? p) where
  keepsFront := by
    intro s digits rest h
    obtain ⟨t, hpoint, rfl, rfl, hdigits⟩ | ⟨hnone, rfl, rfl, hdigits⟩ := readPointed?_cases h
    · refine ⟨s.takeWhile p ++ '.' :: t.takeWhile p, ?_, fun back hback => ?_⟩
      · rw [List.append_assoc, List.cons_append, List.takeWhile_append_dropWhile, ← hpoint,
          List.takeWhile_append_dropWhile]
      · obtain ⟨htake, hdrop⟩ := takeWhile_append_of_prefix_dropWhile hback
        have hall : ∀ c ∈ s.takeWhile p, p c = true := fun c => List.mem_takeWhile_imp
        rw [List.append_assoc, List.cons_append]
        have hwhole : (s.takeWhile p ++ '.' :: (t.takeWhile p ++ back)).takeWhile p =
            s.takeWhile p := by
          rw [List.takeWhile_append_of_pos hall, List.takeWhile_cons_of_neg (by simp [hp]),
            List.append_nil]
        have hrest : (s.takeWhile p ++ '.' :: (t.takeWhile p ++ back)).dropWhile p =
            '.' :: (t.takeWhile p ++ back) := by
          rw [List.dropWhile_append_of_pos hall, List.dropWhile_cons_of_neg (by simp [hp])]
        rw [readPointed?_of_point hrest (by rwa [hwhole, htake]), hwhole, htake, hdrop]
    · refine ⟨s.takeWhile p, List.takeWhile_append_dropWhile.symm, fun back hback => ?_⟩
      obtain ⟨htake, hdrop⟩ := takeWhile_append_of_prefix_dropWhile hback
      have hnone' : ∀ t, back ≠ '.' :: t := by
        rintro t rfl
        obtain ⟨more, hmore⟩ := hback
        exact hnone (t ++ more) hmore.symm
      rw [readPointed?_of_noPoint (by rwa [hdrop]) (by rwa [htake]), htake, hdrop]
  extend := by
    intro s digits rest h more
    obtain ⟨t, hpoint, rfl, rfl, hdigits⟩ | ⟨hnone, rfl, rfl, hdigits⟩ := readPointed?_cases h
    · rcases span_append (p := p) s more with ⟨-, hwhole, hrest⟩ | ⟨hnil, -⟩
      · rw [hpoint, List.cons_append] at hrest
        rcases span_append (p := p) t more with ⟨-, htake, hdrop⟩ | ⟨hnil, htake, hdrop⟩
        · left
          rw [readPointed?_of_point hrest (by rwa [hwhole, htake]), hwhole, htake, hdrop]
        · refine .inr ⟨hnil, _, _, readPointed?_of_point hrest ?_, ?_⟩
          · rw [hwhole, htake]
            simpa using hdigits.imp_right fun h heq => absurd heq (by simpa using h)
          · rw [hdrop]
            exact List.length_dropWhile_le p more
      · rw [hpoint] at hnil
        cases hnil
    · rcases span_append (p := p) s more with ⟨hne, hwhole, hrest⟩ | ⟨hnil, hwhole, hrest⟩
      · have hnone' : ∀ t, s.dropWhile p ++ more ≠ '.' :: t := by
          intro t heq
          obtain ⟨c, left, hleft⟩ := List.exists_cons_of_ne_nil hne
          rw [hleft, List.cons_append] at heq
          cases heq
          exact hnone left hleft
        left
        rw [readPointed?_of_noPoint (by rwa [hrest]) (by rwa [hwhole]), hwhole, hrest]
      · have hdigits' : ((s ++ more).takeWhile p).isEmpty = false := by
          rw [hwhole]
          simpa using fun heq => absurd heq (by simpa using hdigits)
        have hle := List.length_dropWhile_le p more
        by_cases hpoint : ∃ t, (s ++ more).dropWhile p = '.' :: t
        · obtain ⟨t, hpoint⟩ := hpoint
          refine .inr ⟨hnil, _, _, readPointed?_of_point hpoint (.inl hdigits'), ?_⟩
          have hshort := List.length_dropWhile_le p t
          rw [← hrest, hpoint, List.length_cons] at hle
          omega
        · refine .inr ⟨hnil, _, _, readPointed?_of_noPoint (not_exists.mp hpoint) hdigits', ?_⟩
          rw [hrest]
          exact hle

end

/-! ## Numbers -/

/-- Digits, and a scale or none, with the numeral that they make. -/
def readScaled? (p : Char → Bool) (mark : Char)
    (numeral : List Char × List Char → Int → Numeral) (s : List Char) :
    Option (Numeral × List Char) :=
  (readPointed? p s).bind fun digits =>
    (some (readScale mark digits.2)).map fun scaled => (numeral digits.1 scaled.1, scaled.2)

theorem isLongest_readScaled? {p : Char → Bool} (hp : p '.' = false) (mark : Char)
    (numeral : List Char × List Char → Int → Numeral) :
    IsLongest (readScaled? p mark numeral) :=
  IsLongest.bind (isSettled_readPointed? hp)
    (fun digits => (isLongest_readScale mark).map (numeral digits)) fun _ => .inr fun _ _ => ⟨_, rfl⟩

theorem readDecimal?_eq (negative : Bool) (s : List Char) :
    readDecimal? negative s = readScaled? Char.isDigit 'e' (fun digits scale =>
      .decimal negative (digitsValue 10 (digits.1 ++ digits.2)) (scale - digits.2.length)) s := by
  rw [readDecimal?, readScaled?, readPointed?]
  cases readDigits? Char.isDigit s <;> rfl

theorem readHexadecimal?_eq (negative : Bool) (s : List Char) :
    readHexadecimal? negative s = ((readWord? ['0', 'x'] s).map fun rest => ((), rest)).bind
      fun hex => readScaled? isHexDigit 'p' (fun digits scale =>
        .binary negative (digitsValue 16 (digits.1 ++ digits.2)) (scale - 4 * digits.2.length))
          hex.2 := by
  rw [readHexadecimal?]
  cases readWord? ['0', 'x'] s with
  | none => rfl
  | some t =>
    simp only [Option.bind_eq_bind, Option.map_some, Option.bind_some, readScaled?, readPointed?]
    cases readDigits? isHexDigit t <;> rfl

theorem isLongest_readDecimal? (negative : Bool) : IsLongest (readDecimal? negative) := by
  rw [funext (readDecimal?_eq negative)]
  exact isLongest_readScaled? rfl _ _

theorem isLongest_readHexadecimal? (negative : Bool) : IsLongest (readHexadecimal? negative) := by
  rw [funext (readHexadecimal?_eq negative)]
  exact IsLongest.bind (isSettled_readWord? _ ()) (fun _ => isLongest_readScaled? rfl _ _)
    fun _ => .inl rfl

/-! ## What number texts start with -/

theorem isDigit_eq_false_of_isAlpha {c : Char} (h : c.isAlpha = true) : c.isDigit = false := by
  rw [Bool.eq_false_iff]
  intro hdigit
  simp only [Char.isAlpha, Char.isUpper, Char.isLower, Char.isDigit, Bool.or_eq_true,
    Bool.and_eq_true, decide_eq_true_eq, ge_iff_le, UInt32.le_iff_toNat_le] at h hdigit
  grind

/-- Only letters have another case. -/
theorem eq_of_toLower_eq {c d : Char} (hd : d.isAlpha = false) (h : c.toLower = d) : c = d := by
  rw [← Char.toLower_eq_of_not_isUpper (c := c), h]
  intro hupper
  have halpha : c.isAlpha = true := by rw [Char.isAlpha, hupper, Bool.true_or]
  rw [← Char.isAlpha_toLower_eq_isAlpha, h, hd] at halpha
  cases halpha

/-- Whether a text starts with a letter. -/
def StartsWithLetter (s : List Char) : Prop :=
  ∃ c t, s = c :: t ∧ c.isAlpha = true

theorem length_of_readWord? {word s rest : List Char} (h : readWord? word s = some rest) :
    s.length = word.length + rest.length := by
  obtain ⟨front, rfl, rfl⟩ := readWord?_eq_some_iff.mp h
  simp

/-- A text that is read as a word starts with the first letter of the word, in some case. -/
theorem exists_cons_of_readWord? {w : Char} {word s rest : List Char}
    (h : readWord? (w :: word) s = some rest) : ∃ c t, s = c :: t ∧ c.toLower = w := by
  obtain ⟨front, rfl, hfront⟩ := readWord?_eq_some_iff.mp h
  obtain ⟨c, t, rfl, hc, -⟩ := List.map_eq_cons_iff.mp hfront
  exact ⟨c, t ++ rest, rfl, hc⟩

/-- Two words that start one text start with one letter. -/
theorem eq_of_readWord? {w w' : Char} {word word' s more rest rest' : List Char}
    (h : readWord? (w :: word) s = some rest)
    (h' : readWord? (w' :: word') (s ++ more) = some rest') : w = w' := by
  obtain ⟨c, t, rfl, rfl⟩ := exists_cons_of_readWord? h
  obtain ⟨c', t', heq, rfl⟩ := exists_cons_of_readWord? h'
  rw [List.cons_append, List.cons.injEq] at heq
  rw [heq.1]

theorem readScale_of_toLower_ne {mark c : Char} {s : List Char} (h : c.toLower ≠ mark) :
    readScale mark (c :: s) = (0, c :: s) := by
  rw [readScale_eq, readMarked?, readWord?, if_neg h]
  rfl

/-- A digit before a letter is all that is read. -/
theorem readPointed?_zero_cons {c : Char} {s : List Char} (h : c.isAlpha = true) :
    readPointed? Char.isDigit ('0' :: c :: s) = some ((['0'], []), c :: s) := by
  have hc : ¬ c.isDigit = true := by rw [isDigit_eq_false_of_isAlpha h]; exact Bool.false_ne_true
  have htake : ('0' :: c :: s).takeWhile Char.isDigit = ['0'] := by
    rw [List.takeWhile_cons_of_pos rfl, List.takeWhile_cons_of_neg hc]
  have hdrop : ('0' :: c :: s).dropWhile Char.isDigit = c :: s := by
    rw [List.dropWhile_cons_of_pos rfl, List.dropWhile_cons_of_neg hc]
  rw [readPointed?_of_noPoint _ (by rw [htake]; rfl), htake, hdrop]
  intro t ht
  rw [hdrop, List.cons.injEq] at ht
  rw [ht.1] at h
  cases h

theorem startsWithLetter_of_readNamed? {negative : Bool} {s : List Char}
    {taken : Numeral × List Char} (h : readNamed? negative s = some taken) :
    StartsWithLetter s := by
  have hword : ∃ w word rest, w.isAlpha = true ∧ readWord? (w :: word) s = some rest := by
    rw [readNamed?] at h
    cases hlong : readWord? "infinity".toList s with
    | some rest => exact ⟨'i', _, rest, rfl, hlong⟩
    | none =>
      cases hshort : readWord? "inf".toList s with
      | some rest => exact ⟨'i', _, rest, rfl, hshort⟩
      | none =>
        cases hnan : readWord? "nan".toList s with
        | some rest => exact ⟨'n', _, rest, rfl, hnan⟩
        | none =>
          rw [hlong, hshort, hnan] at h
          cases h
  obtain ⟨w, word, rest, hw, hread⟩ := hword
  obtain ⟨c, t, hs, hc⟩ := exists_cons_of_readWord? hread
  exact ⟨c, t, hs, by rw [← Char.isAlpha_toLower_eq_isAlpha, hc, hw]⟩

theorem exists_cons_of_readPointed? {p : Char → Bool} {s rest : List Char}
    {digits : List Char × List Char} (h : readPointed? p s = some (digits, rest)) :
    ∃ c t, s = c :: t ∧ (p c = true ∨ c = '.') := by
  cases s with
  | nil => cases h
  | cons c s =>
    refine ⟨c, s, rfl, Classical.or_iff_not_imp_left.mpr fun hc => ?_⟩
    obtain ⟨t, hpoint, -⟩ | ⟨-, -, -, hdigits⟩ := readPointed?_cases h
    · rw [List.dropWhile_cons_of_neg hc, List.cons.injEq] at hpoint
      exact hpoint.1
    · rw [List.takeWhile_cons_of_neg hc] at hdigits
      cases hdigits

theorem not_startsWithLetter_of_readDecimal? {negative : Bool} {s : List Char}
    {taken : Numeral × List Char} (h : readDecimal? negative s = some taken) (more : List Char) :
    ¬ StartsWithLetter (s ++ more) := by
  rintro ⟨c, t, hs, hletter⟩
  rw [readDecimal?_eq] at h
  obtain ⟨⟨digits, rest⟩, hdigits, -⟩ := Option.bind_eq_some_iff.mp h
  obtain ⟨c', t', rfl, hc⟩ := exists_cons_of_readPointed? hdigits
  rw [List.cons_append, List.cons.injEq] at hs
  obtain ⟨rfl, -⟩ := hs
  rcases hc with hc | rfl
  · rw [isDigit_eq_false_of_isAlpha hletter] at hc
    cases hc
  · cases hletter

theorem not_startsWithLetter_of_readHexadecimal? {negative : Bool} {s : List Char}
    {taken : Numeral × List Char} (h : readHexadecimal? negative s = some taken)
    (more : List Char) : ¬ StartsWithLetter (s ++ more) := by
  rintro ⟨c, t, hs, hletter⟩
  rw [readHexadecimal?_eq] at h
  obtain ⟨hex, hhex, -⟩ := Option.bind_eq_some_iff.mp h
  obtain ⟨rest, hword, -⟩ := Option.map_eq_some_iff.mp hhex
  obtain ⟨c', t', rfl, hc⟩ := exists_cons_of_readWord? hword
  rw [List.cons_append, List.cons.injEq] at hs
  obtain ⟨rfl, -⟩ := hs
  rw [eq_of_toLower_eq rfl hc] at hletter
  cases hletter

/-! ## Which kind of text goes first -/

/-- The long word for infinity starts with the short one, and NaN with another letter. -/
theorem isLongest_readNamed? (negative : Bool) : IsLongest (readNamed? negative) := by
  have hword := fun word => (isSettled_readWord? word (infinite negative)).isLongest
  have hnan : IsLongest fun s =>
      (readWord? "nan".toList s).map fun rest => (nan negative, skipName rest) := by
    have h := IsLongest.bind (isSettled_readWord? "nan".toList (nan negative))
      (fun n => isLongest_skipName n) fun _ => .inr fun _ _ => ⟨_, rfl⟩
    simpa only [Option.map_eq_bind, Option.bind_assoc, Function.comp_def, Option.bind_some] using h
  have hshort := (hword "inf".toList).orElse hnan fun {s more b rest a left} h h' => by
    obtain ⟨t, h, -⟩ := Option.map_eq_some_iff.mp h
    obtain ⟨t', h', -⟩ := Option.map_eq_some_iff.mp h'
    exact absurd (eq_of_readWord? h h') (by decide)
  have hlong := (hword "infinity".toList).orElse hshort fun {s more b rest a left} h h' => by
    obtain ⟨t', h', heq'⟩ := Option.map_eq_some_iff.mp h'
    cases heq'
    cases hread : readWord? "inf".toList s with
    | some t =>
      rw [hread] at h
      cases h
      have hlength := length_of_readWord? hread
      have hlength' := length_of_readWord? h'
      simp at hlength hlength' ⊢
      omega
    | none =>
      rw [hread] at h
      obtain ⟨t, h, -⟩ := Option.map_eq_some_iff.mp h
      exact absurd (eq_of_readWord? h h') (by decide)
  exact hlong

/-- Behind `0x` the decimal text is over, since no scale starts with an `x`. -/
theorem length_le_of_readHexadecimal? {negative : Bool} {s more rest left : List Char}
    {a b : Numeral} (h : readDecimal? negative s = some (b, rest))
    (h' : readHexadecimal? negative (s ++ more) = some (a, left)) :
    left.length ≤ (rest ++ more).length := by
  rw [readHexadecimal?_eq] at h'
  obtain ⟨⟨u, t⟩, hhex, hscaled⟩ := Option.bind_eq_some_iff.mp h'
  obtain ⟨t', hword, heq⟩ := Option.map_eq_some_iff.mp hhex
  cases heq
  have hshort := (isLongest_readScaled? rfl _ _).keepsFront.length_le hscaled
  have hlength := length_of_readWord? hword
  simp only [List.length_append, List.length_cons, List.length_nil] at hlength hshort ⊢
  match s with
  | [] => cases h
  | [c] =>
    rw [List.length_singleton] at hlength
    omega
  | c :: d :: s =>
    obtain ⟨front, hs, hfront⟩ := readWord?_eq_some_iff.mp hword
    obtain ⟨c', d', rfl⟩ := List.length_eq_two.mp
      ((List.length_map Char.toLower).symm.trans (congrArg List.length hfront))
    simp only [List.cons_append, List.cons.injEq] at hs
    obtain ⟨rfl, rfl, -⟩ := hs
    simp only [List.map_cons, List.map_nil, List.cons.injEq, and_true] at hfront
    rw [eq_of_toLower_eq rfl hfront.1, readDecimal?_eq, readScaled?,
      readPointed?_zero_cons (by rw [← Char.isAlpha_toLower_eq_isAlpha, hfront.2]; rfl),
      Option.bind_some, readScale_of_toLower_ne (by rw [hfront.2]; decide)] at h
    cases h
    rw [List.length_cons] at hlength ⊢
    rw [List.length_cons] at hlength
    omega

theorem isLongest_readUnsigned (negative : Bool) : IsLongest fun s =>
    readNamed? negative s <|> readHexadecimal? negative s <|> readDecimal? negative s := by
  have hdigits := (isLongest_readHexadecimal? negative).orElse (isLongest_readDecimal? negative)
    length_le_of_readHexadecimal?
  refine (isLongest_readNamed? negative).orElse hdigits fun {s more b rest a left} h h' => ?_
  have hletter := startsWithLetter_of_readNamed? h'
  cases hhex : readHexadecimal? negative s with
  | some taken => exact absurd hletter (not_startsWithLetter_of_readHexadecimal? hhex more)
  | none =>
    simp only [hhex] at h
    exact absurd hletter (not_startsWithLetter_of_readDecimal? h more)

theorem isLongest_read? : IsLongest read? := by
  have hsigned := IsLongest.bind isSettled_readSign isLongest_readUnsigned fun _ => .inl rfl
  exact IsLongest.bind (isSettled_dropWhile isSpace) (fun _ => hsigned) fun _ => .inl rfl

/-! ## The longest number -/

/-- A text that is a number as a whole. -/
def IsNumber (s : List Char) : Prop :=
  ∃ n, read? s = some (n, [])

/-- The longest number that a text starts with, and the numeral that it is. -/
structure LongestNumber (s front : List Char) (n : Numeral) : Prop where
  isPrefix : front <+: s
  read : read? front = some (n, [])
  longest : ∀ t, t <+: s → IsNumber t → t.length ≤ front.length

/-- What is read is the longest number that the text starts with. -/
theorem read?_eq_some_iff {s rest : List Char} {n : Numeral} :
    read? s = some (n, rest) ↔ ∃ front, s = front ++ rest ∧ LongestNumber s front n := by
  constructor
  · intro h
    obtain ⟨front, rfl, hkeep⟩ := isLongest_read?.keepsFront h
    have hfront := hkeep [] List.nil_prefix
    rw [List.append_nil] at hfront
    refine ⟨front, rfl, List.prefix_append front rest, hfront, ?_⟩
    rintro t ⟨more, hmore⟩ ⟨n', ht⟩
    obtain ⟨b, left, hlong, hle⟩ := isLongest_read?.extend ht more
    rw [hmore, h] at hlong
    cases hlong
    have hlength := congrArg List.length hmore
    rw [List.length_append, List.length_append] at hlength
    rw [List.nil_append] at hle
    omega
  · rintro ⟨front, rfl, -, hfront, hmost⟩
    obtain ⟨b, left, hlong, hle⟩ := isLongest_read?.extend hfront rest
    obtain ⟨front', hs, hkeep⟩ := isLongest_read?.keepsFront hlong
    have hfront' := hkeep [] List.nil_prefix
    rw [List.append_nil] at hfront'
    have hshort := hmost front' ⟨left, hs.symm⟩ ⟨b, hfront'⟩
    have hlength := congrArg List.length hs
    rw [List.length_append, List.length_append] at hlength
    rw [List.nil_append] at hle
    obtain ⟨rfl, rfl⟩ := List.append_inj hs (by omega)
    rw [hfront, Option.some.injEq, Prod.mk.injEq] at hfront'
    rw [hlong, hfront'.1]

theorem LongestNumber.exists_read?_eq {s front : List Char} {n : Numeral}
    (h : LongestNumber s front n) : ∃ rest, s = front ++ rest ∧ read? s = some (n, rest) := by
  obtain ⟨rest, hs⟩ := h.isPrefix
  exact ⟨rest, hs.symm, read?_eq_some_iff.mpr ⟨front, hs.symm, h⟩⟩

/-- Nothing is read where the text starts with no number. -/
theorem read?_eq_none_iff {s : List Char} :
    read? s = none ↔ ∀ t, t <+: s → ¬ IsNumber t := by
  constructor
  · rintro h t hpart ⟨n, ht⟩
    rw [isLongest_read?.eq_none_of_prefix h hpart] at ht
    cases ht
  · intro h
    cases hread : read? s with
    | none => rfl
    | some taken =>
      obtain ⟨front, -, hlongest⟩ := read?_eq_some_iff.mp hread
      exact absurd ⟨taken.1, hlongest.read⟩ (h front hlongest.isPrefix)

end Numeral

end Metrology
