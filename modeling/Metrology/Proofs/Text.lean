import Mathlib
import Metrology.Binary64.Numeral
import Metrology.Text

/-!
# Metrology.Proofs.Text -- cutting texts that were put together

Whatever writes a text here puts pieces together with a mark between them, or behind each of them,
and whatever reads one cuts it at that mark. The pieces come back when none of them contains the
mark: `separated_join` for a list of pieces, `items_join` for items with a blank behind the mark,
`terminated_join_ended` for lines, `cutAt?_append` for the first mark in a text. Whatever the text
is, the pieces are those that lists are cut into at an element (`separated_eq_splitOn`, and
`exists_splitOn_eq_terminated_append` but for an empty last one), and a cut at the first mark is one
(`eq_of_cutAt?_eq_some`). Trimming keeps a text that has no blank at its ends (`IsTrimmed.trim_eq`).

A whole number is written in decimal digits behind a minus or nothing (`toList_ofInt`), and these
read back as its size and its sign (`digitsValue_toDigits`, `readSign_ofInt`).
-/

namespace Metrology

namespace Text

/-! ## Cutting at a mark -/

variable {mark : Char}

/-- A piece that contains no mark is not cut. -/
theorem separated_of_notMem {s : List Char} (h : mark ∉ s) : separated mark s = [s] := by
  induction s with
  | nil => rfl
  | cons c s ih =>
    simp only [List.mem_cons, not_or] at h
    rw [separated, if_neg (Ne.symm h.1), ih h.2]

/-- The first mark ends the first piece. -/
theorem separated_append {s : List Char} (h : mark ∉ s) (t : List Char) :
    separated mark (s ++ mark :: t) = s :: separated mark t := by
  induction s with
  | nil => rw [List.nil_append, separated, if_pos rfl]
  | cons c s ih =>
    simp only [List.mem_cons, not_or] at h
    rw [List.cons_append, separated, if_neg (Ne.symm h.1), ih h.2]

/-- Cutting is the cut of lists at an element. -/
theorem separated_eq_splitOn (s : List Char) : separated mark s = s.splitOn mark := by
  induction s with
  | nil => rfl
  | cons c s ih =>
    obtain ⟨piece, pieces, hpieces⟩ := List.exists_cons_of_ne_nil (List.splitOn_ne_nil mark s)
    rw [separated, ih, List.splitOn_cons_eq_if_modifyHead, hpieces]
    simp

/-- Where marks terminate pieces there is at most one piece less than where they separate them: the
empty one behind the last mark. -/
theorem exists_splitOn_eq_terminated_append (mark : Char) (s : List Char) :
    ∃ rest, (rest = [] ∨ rest = [[]]) ∧ s.splitOn mark = terminated mark s ++ rest := by
  induction s with
  | nil => exact ⟨[[]], .inr rfl, rfl⟩
  | cons c s ih =>
    obtain ⟨rest, hrest, hcut⟩ := ih
    rw [terminated, List.splitOn_cons_eq_if_modifyHead, hcut]
    by_cases hc : c = mark
    · exact ⟨rest, hrest, by simp [hc]⟩
    · rw [if_neg (by simpa using hc), if_neg hc]
      cases hpieces : terminated mark s with
      | nil =>
        -- The text is a last piece that is not ended; the first character makes it non-empty.
        rcases hrest with rfl | rfl
        · exact absurd hcut (by rw [hpieces]; exact List.splitOn_ne_nil mark s)
        · exact ⟨[], .inl rfl, rfl⟩
      | cons piece pieces => exact ⟨rest, hrest, rfl⟩

theorem toList_join_cons_cons (mark : String) (s t : String) (parts : List String) :
    (join mark (s :: t :: parts)).toList =
      s.toList ++ (mark.toList ++ (join mark (t :: parts)).toList) := by
  rw [join, String.toList_append, String.toList_append, List.append_assoc]

/-- Parts that contain no mark come back as they are. -/
theorem separated_join {parts : List String} (hne : parts ≠ [])
    (h : ∀ part ∈ parts, mark ∉ part.toList) :
    separated mark (join (.ofList [mark]) parts).toList = parts.map String.toList := by
  induction parts with
  | nil => exact absurd rfl hne
  | cons s parts ih =>
    have hs := h s List.mem_cons_self
    cases parts with
    | nil => exact separated_of_notMem hs
    | cons t parts =>
      have hrest := ih (List.cons_ne_nil t parts) fun part hp => h part (List.mem_cons_of_mem _ hp)
      rw [toList_join_cons_cons, String.toList_ofList, List.singleton_append, separated_append hs,
        hrest]
      rfl

/-- What stands in a text that was put together stands in a part, or is of the mark. -/
theorem mem_toList_join {mark : String} {parts : List String} {c : Char}
    (h : c ∈ (join mark parts).toList) : c ∈ mark.toList ∨ ∃ part ∈ parts, c ∈ part.toList := by
  induction parts with
  | nil => exact absurd h List.not_mem_nil
  | cons s parts ih =>
    cases parts with
    | nil => exact .inr ⟨s, List.mem_cons_self, h⟩
    | cons t parts =>
      rw [toList_join_cons_cons, List.mem_append, List.mem_append] at h
      -- In the first part, in the mark behind it, or in what was put together of the others.
      rcases h with h | h | h
      · exact .inr ⟨s, List.mem_cons_self, h⟩
      · exact .inl h
      · refine (ih h).imp id ?_
        rintro ⟨part, hp, hc⟩
        exact ⟨part, List.mem_cons_of_mem _ hp, hc⟩

theorem cutAt?_of_notMem {s : List Char} (h : mark ∉ s) : cutAt? mark s = none := by
  induction s with
  | nil => rfl
  | cons c s ih =>
    simp only [List.mem_cons, not_or] at h
    rw [cutAt?, if_neg (Ne.symm h.1), ih h.2]
    rfl

/-- The first mark is where a text is cut. -/
theorem cutAt?_append {s : List Char} (h : mark ∉ s) (t : List Char) :
    cutAt? mark (s ++ mark :: t) = some (s, t) := by
  induction s with
  | nil => rw [List.nil_append, cutAt?, if_pos rfl]
  | cons c s ih =>
    simp only [List.mem_cons, not_or] at h
    rw [List.cons_append, cutAt?, if_neg (Ne.symm h.1), ih h.2]
    rfl

/-- A text that is cut is cut at its first mark. -/
theorem eq_of_cutAt?_eq_some {s front back : List Char} (h : cutAt? mark s = some (front, back)) :
    s = front ++ mark :: back ∧ mark ∉ front := by
  induction s generalizing front with
  | nil => cases h
  | cons c s ih =>
    rw [cutAt?] at h
    split at h
    · next hc =>
      cases h
      exact ⟨by rw [hc, List.nil_append], List.not_mem_nil⟩
    · next hc =>
      obtain ⟨⟨front', back'⟩, hrest, heq⟩ := Option.map_eq_some_iff.mp h
      cases heq
      obtain ⟨rfl, hfree⟩ := ih hrest
      exact ⟨rfl, by simp [Ne.symm hc, hfree]⟩

theorem cutAt?_eq_some_iff {s front back : List Char} :
    cutAt? mark s = some (front, back) ↔ s = front ++ mark :: back ∧ mark ∉ front := by
  refine ⟨eq_of_cutAt?_eq_some, ?_⟩
  rintro ⟨rfl, h⟩
  exact cutAt?_append h back

theorem cutAt?_eq_none_iff {s : List Char} : cutAt? mark s = none ↔ mark ∉ s := by
  refine ⟨fun h hmem => ?_, cutAt?_of_notMem⟩
  obtain ⟨front, back, rfl, hfree⟩ := List.eq_append_cons_of_mem hmem
  rw [cutAt?_append hfree] at h
  cases h

theorem before_of_notMem {s : List Char} (h : mark ∉ s) : before mark s = s := by
  rw [before, List.takeWhile_eq_self_iff]
  exact fun c hc => decide_eq_true fun heq => h (heq ▸ hc)

/-- What stands before the first mark. -/
theorem before_append {s : List Char} (h : mark ∉ s) (t : List Char) :
    before mark (s ++ mark :: t) = s := by
  have hfree : ∀ c ∈ s, decide (c ≠ mark) = true :=
    fun c hc => decide_eq_true fun heq => h (heq ▸ hc)
  rw [before, List.takeWhile_append_of_pos hfree, List.takeWhile_cons_of_neg (by simp),
    List.append_nil]

/-! ## Trimming -/

/-- A text without a blank at its two ends. -/
structure IsTrimmed (s : List Char) : Prop where
  head : ∀ c ∈ s.head?, isBlank c = false
  last : ∀ c ∈ s.getLast?, isBlank c = false

theorem isTrimmed_iff {s : List Char} :
    IsTrimmed s ↔ (s.head?.all (!isBlank ·) && s.getLast?.all (!isBlank ·)) = true := by
  simp only [Bool.and_eq_true, Option.all_eq_true, Bool.not_eq_true']
  exact ⟨fun h => ⟨h.head, h.last⟩, fun h => ⟨h.1, h.2⟩⟩

instance (s : List Char) : Decidable (IsTrimmed s) := decidable_of_iff _ isTrimmed_iff.symm

theorem isTrimmed_singleton {c : Char} (h : isBlank c = false) : IsTrimmed [c] :=
  ⟨by simpa using h, by simpa using h⟩

theorem dropWhile_isBlank_of_head {s : List Char} (h : ∀ c ∈ s.head?, isBlank c = false) :
    s.dropWhile isBlank = s := by
  cases s with
  | nil => rfl
  | cons c s =>
    rw [List.dropWhile_cons_of_neg]
    rw [h c rfl]
    exact Bool.false_ne_true

theorem IsTrimmed.trim_eq {s : List Char} (h : IsTrimmed s) : trim s = s := by
  have hlast : ∀ c ∈ s.reverse.head?, isBlank c = false := by
    rw [List.head?_reverse]
    exact h.last
  rw [trim, dropWhile_isBlank_of_head h.head, dropWhile_isBlank_of_head hlast,
    List.reverse_reverse]

/-- A text without blanks is trimmed already. -/
theorem trim_of_forall {s : List Char} (h : ∀ c ∈ s, isBlank c = false) : trim s = s :=
  IsTrimmed.trim_eq ⟨fun c hc => h c (List.mem_of_mem_head? hc),
    fun c hc => h c (List.mem_of_mem_getLast? hc)⟩

/-- What stands between the ends does not matter. -/
theorem IsTrimmed.append {s t : List Char} (hs : IsTrimmed s) (hs' : s ≠ []) (ht : IsTrimmed t)
    (ht' : t ≠ []) (between : List Char) : IsTrimmed (s ++ (between ++ t)) where
  head := by
    rw [List.head?_append_of_ne_nil s hs']
    exact hs.head
  last := by
    rw [← List.append_assoc, List.getLast?_append_of_ne_nil _ ht']
    exact ht.last

theorem trim_subset (s : List Char) : trim s ⊆ s := by
  intro c hc
  rw [trim, List.mem_reverse] at hc
  exact List.dropWhile_subset _ (List.mem_reverse.mp (List.dropWhile_subset _ hc))

theorem trim_cons_of_isBlank {c : Char} (h : isBlank c = true) (s : List Char) :
    trim (c :: s) = trim s := by
  rw [trim, List.dropWhile_cons_of_pos h, trim]

theorem trim_append_of_isBlank {c : Char} (h : isBlank c = true) (s : List Char) :
    trim (s ++ [c]) = trim s := by
  rw [trim, trim, List.dropWhile_append]
  split
  · next hempty =>
    rw [List.isEmpty_iff.mp hempty, List.dropWhile_cons_of_pos h]
    rfl
  · rw [List.reverse_append, List.reverse_singleton, List.singleton_append,
      List.dropWhile_cons_of_pos h]

/-! ## Lists of items -/

theorem terminated_of_notMem {s : List Char} (hne : s ≠ []) (h : mark ∉ s) :
    terminated mark s = [s] := by
  induction s with
  | nil => exact absurd rfl hne
  | cons c s ih =>
    simp only [List.mem_cons, not_or] at h
    rw [terminated, if_neg (Ne.symm h.1)]
    cases s with
    | nil => rfl
    | cons d s => rw [ih (List.cons_ne_nil d s) h.2]

theorem terminated_append {s : List Char} (h : mark ∉ s) (t : List Char) :
    terminated mark (s ++ mark :: t) = s :: terminated mark t := by
  induction s with
  | nil => rw [List.nil_append, terminated, if_pos rfl]
  | cons c s ih =>
    simp only [List.mem_cons, not_or] at h
    rw [List.cons_append, terminated, if_neg (Ne.symm h.1), ih h.2]

/-- A text that is an item as it stands. -/
structure IsItem (mark : Char) (s : List Char) : Prop where
  nonempty : s ≠ []
  free : mark ∉ s
  trimmed : IsTrimmed s

theorem IsItem.items_append {s : List Char} (h : IsItem mark s) (t : List Char) :
    items mark (s ++ mark :: t) = s :: items mark t := by
  rw [items, terminated_append h.free, List.map_cons, h.trimmed.trim_eq,
    List.filter_cons_of_pos (by simp [h.nonempty]), items]

theorem IsItem.items_eq {s : List Char} (h : IsItem mark s) : items mark s = [s] := by
  rw [items, terminated_of_notMem h.nonempty h.free, List.map_singleton, h.trimmed.trim_eq,
    List.filter_cons_of_pos (by simp [h.nonempty]), List.filter_nil]

/-- A blank before a list is not part of any item. -/
theorem items_cons_of_isBlank {c : Char} (h : isBlank c = true) (hc : c ≠ mark) (s : List Char) :
    items mark (c :: s) = items mark s := by
  rw [items, items, terminated, if_neg hc]
  cases terminated mark s with
  | nil =>
    rw [List.map_singleton, trim_cons_of_isBlank h]
    rfl
  | cons piece pieces => rw [List.map_cons, List.map_cons, trim_cons_of_isBlank h]

/-- Items written with the mark and a space between them come back as they are. -/
theorem items_join (hmark : ' ' ≠ mark) {parts : List String}
    (h : ∀ part ∈ parts, IsItem mark part.toList) :
    items mark (join (.ofList [mark, ' ']) parts).toList = parts.map String.toList := by
  induction parts with
  | nil => rfl
  | cons s parts ih =>
    have hs := h s List.mem_cons_self
    cases parts with
    | nil => exact hs.items_eq
    | cons t parts =>
      have hrest := ih fun part hp => h part (List.mem_cons_of_mem _ hp)
      rw [toList_join_cons_cons, String.toList_ofList, List.cons_append, hs.items_append,
        List.singleton_append, items_cons_of_isBlank rfl hmark, hrest]
      rfl

theorem toList_join_ne_nil (mark : String) {s : String} (h : s ≠ "") (parts : List String) :
    (join mark (s :: parts)).toList ≠ [] := by
  have hs : s.toList ≠ [] := mt String.toList_eq_nil_iff.mp h
  cases parts with
  | nil => exact hs
  | cons t parts =>
    rw [toList_join_cons_cons]
    exact List.append_ne_nil_of_left_ne_nil hs _

/-- Joined texts are trimmed when each of them is. -/
theorem isTrimmed_join (mark : String) {parts : List String}
    (h : ∀ part ∈ parts, part ≠ "" ∧ IsTrimmed part.toList) :
    IsTrimmed (join mark parts).toList := by
  induction parts with
  | nil => exact ⟨by simp [join], by simp [join]⟩
  | cons s parts ih =>
    obtain ⟨hne, hs⟩ := h s List.mem_cons_self
    have hrest : ∀ part ∈ parts, part ≠ "" ∧ IsTrimmed part.toList :=
      fun part hp => h part (List.mem_cons_of_mem _ hp)
    cases parts with
    | nil => exact hs
    | cons t parts =>
      rw [toList_join_cons_cons]
      exact hs.append (mt String.toList_eq_nil_iff.mp hne) (ih hrest)
        (toList_join_ne_nil mark (hrest t List.mem_cons_self).1 parts) mark.toList

theorem toList_join_empty (s : String) (parts : List String) :
    (join "" (s :: parts)).toList = s.toList ++ (join "" parts).toList := by
  cases parts with
  | nil => rw [join, join, String.toList_empty, List.append_nil]
  | cons t parts => rw [toList_join_cons_cons, String.toList_empty, List.nil_append]

/-- Lines that are each ended by the mark come back as they are. -/
theorem terminated_join_ended {lines : List String} (h : ∀ line ∈ lines, mark ∉ line.toList) :
    terminated mark (join "" (lines.map (· ++ .ofList [mark]))).toList =
      lines.map String.toList := by
  induction lines with
  | nil => rfl
  | cons s lines ih =>
    have hrest := ih fun line hl => h line (List.mem_cons_of_mem _ hl)
    rw [List.map_cons, toList_join_empty, String.toList_append, String.toList_ofList,
      List.append_assoc, List.singleton_append, terminated_append (h s List.mem_cons_self), hrest,
      List.map_cons]

theorem notMem_of_mem_terminated (s : List Char) : ∀ piece ∈ terminated mark s, mark ∉ piece := by
  induction s with
  | nil => simp [terminated]
  | cons c s ih =>
    rw [terminated]
    split
    · simpa using ih
    · next hc =>
      cases hpieces : terminated mark s with
      | nil => simpa using Ne.symm hc
      | cons piece pieces =>
        rw [hpieces, List.forall_mem_cons] at ih
        simpa [Ne.symm hc] using ih

theorem notMem_of_mem_splitOn {s piece : List Char} (h : piece ∈ s.splitOn mark) : mark ∉ piece := by
  obtain ⟨rest, hrest, hcut⟩ := exists_splitOn_eq_terminated_append mark s
  rw [hcut, List.mem_append] at h
  rcases h with h | h
  · exact notMem_of_mem_terminated s piece h
  · rcases hrest with rfl | rfl
    · exact absurd h List.not_mem_nil
    · rw [List.mem_singleton.mp h]
      exact List.not_mem_nil

/-- The first piece of a text starts as the text does, up to where the mark is. -/
theorem exists_mem_terminated_append {start : List Char} (hne : start ≠ []) (h : mark ∉ start)
    (s : List Char) : ∃ piece ∈ terminated mark (start ++ s), start <+: piece := by
  by_cases hmem : mark ∈ s
  · obtain ⟨front, back, rfl, hfree⟩ := List.eq_append_cons_of_mem hmem
    have hpiece : mark ∉ start ++ front := by simp [h, hfree]
    rw [← List.append_assoc, terminated_append hpiece]
    exact ⟨_, List.mem_cons_self, List.prefix_append _ _⟩
  · have hpiece : mark ∉ start ++ s := by simp [h, hmem]
    rw [terminated_of_notMem (by simp [hne]) hpiece]
    exact ⟨_, List.mem_singleton_self _, List.prefix_append _ _⟩

/-! ## Parts of texts -/

theorem isPrefixOf_iff {start heading : String} :
    start.toList.isPrefixOf heading.toList = true ↔ ∃ name, heading = start ++ name := by
  rw [List.isPrefixOf_iff_prefix]
  constructor
  · rintro ⟨rest, hrest⟩
    refine ⟨.ofList rest, String.toList_injective ?_⟩
    rw [String.toList_append, String.toList_ofList, hrest]
  · rintro ⟨name, rfl⟩
    rw [String.toList_append]
    exact List.prefix_append _ _

theorem append_ne_empty (s : String) {t : String} (h : t ≠ "") : s ++ t ≠ "" :=
  fun heq => h (String.append_eq_empty_iff.mp heq).2

theorem notMem_toList_append {s t : String} {c : Char} (hs : c ∉ s.toList) (ht : c ∉ t.toList) :
    c ∉ (s ++ t).toList := by
  rw [String.toList_append, List.mem_append, not_or]
  exact ⟨hs, ht⟩

theorem prefix_toList_append {start : List Char} {s : String} (h : start <+: s.toList)
    (t : String) : start <+: (s ++ t).toList := by
  rw [String.toList_append]
  exact List.prefix_append_of_prefix h

/-- Of two texts that one text starts with, one starts with the other. -/
theorem prefix_or_prefix_of_append_eq {s t a b : String} (h : s ++ a = t ++ b) :
    s.toList <+: t.toList ∨ t.toList <+: s.toList := by
  have ht : t.toList <+: (s ++ a).toList := by
    rw [h, String.toList_append]
    exact List.prefix_append _ _
  rw [String.toList_append] at ht
  exact List.prefix_or_prefix_of_prefix (List.prefix_append _ _) ht

/-! ## Whole numbers -/

theorem toList_ofInt (z : Int) :
    (ofInt z).toList = (if z < 0 then ['-'] else []) ++ Nat.toDigits 10 z.natAbs :=
  String.toList_ofList

theorem isDigit_of_mem_toDigits {n : Nat} {c : Char} (h : c ∈ Nat.toDigits 10 n) :
    c.isDigit = true :=
  Nat.isDigit_of_mem_toDigits (by decide) (by decide) h

theorem notMem_ofInt {c : Char} (hdigit : c.isDigit = false) (hminus : c ≠ '-') (z : Int) :
    c ∉ (ofInt z).toList := by
  rw [toList_ofInt, List.mem_append, not_or]
  refine ⟨by split <;> simp [hminus], fun hmem => ?_⟩
  rw [isDigit_of_mem_toDigits hmem] at hdigit
  cases hdigit

theorem foldl_digitValue {digits : List Char} (h : ∀ c ∈ digits, c.isDigit = true) (n : Nat) :
    digits.foldl (fun n c => 10 * n + Numeral.digitValue c) n = Nat.ofDigitChars 10 digits n := by
  induction digits generalizing n with
  | nil => rfl
  | cons c digits ih =>
    have hc : Numeral.digitValue c = c.toNat - '0'.toNat := if_pos (h c List.mem_cons_self)
    rw [List.foldl_cons, ih fun d hd => h d (List.mem_cons_of_mem _ hd), hc]
    rfl

/-- Decimal digits read back as the number they were written for. -/
theorem digitsValue_toDigits (n : Nat) : Numeral.digitsValue 10 (Nat.toDigits 10 n) = n := by
  rw [Numeral.digitsValue, foldl_digitValue fun c hc => isDigit_of_mem_toDigits hc]
  exact Nat.ofDigitChars_ten_toDigits

/-- A text that starts with a digit has no sign. -/
theorem readSign_of_isDigit {s : List Char} (h : ∀ c ∈ s, c.isDigit = true) :
    Numeral.readSign s = (false, s) := by
  unfold Numeral.readSign
  split
  · exact absurd (h '-' List.mem_cons_self) (by decide)
  · exact absurd (h '+' List.mem_cons_self) (by decide)
  · rfl

theorem readSign_ofInt (z : Int) :
    Numeral.readSign (ofInt z).toList = (decide (z < 0), Nat.toDigits 10 z.natAbs) := by
  rw [toList_ofInt]
  by_cases hz : z < 0
  · rw [if_pos hz, decide_eq_true hz]
    rfl
  · rw [if_neg hz, decide_eq_false hz, List.nil_append]
    exact readSign_of_isDigit fun c hc => isDigit_of_mem_toDigits hc

end Text

end Metrology
