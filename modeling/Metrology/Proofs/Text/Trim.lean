import Mathlib
import Metrology.Proofs.Text

/-!
# Metrology.Proofs.Text.Trim -- trimming texts that were put together

A trimmed text is what is left of a text but for blanks at its two ends, and no blank is at its own
(`trim_eq_iff`). So trimming two texts at once trims them apart, with the blanks between them kept
(`exists_trim_append`), and what stands before the first mark comes out the same whether or not the
text around it is trimmed first (`trim_before_trim`).
-/

namespace Metrology

namespace Text

variable {mark c : Char} {s t blanks : List Char}

/-- A text of blanks only. -/
def AllBlank (s : List Char) : Prop := ∀ c ∈ s, isBlank c = true

theorem AllBlank.append (hs : AllBlank s) (ht : AllBlank t) : AllBlank (s ++ t) := by
  intro c hc
  exact (List.mem_append.mp hc).elim (hs c) (ht c)

theorem AllBlank.notMem (h : AllBlank s) (hc : isBlank c = false) : c ∉ s := by
  intro hmem
  rw [h c hmem] at hc
  cases hc

theorem allBlank_takeWhile (s : List Char) : AllBlank (s.takeWhile isBlank) :=
  fun _ hc => List.mem_takeWhile_imp hc

/-! ## What is left -/

theorem trim_blanks_append (h : AllBlank blanks) (s : List Char) :
    trim (blanks ++ s) = trim s := by
  induction blanks with
  | nil => rfl
  | cons c blanks ih =>
    rw [List.cons_append, trim_cons_of_isBlank (h c List.mem_cons_self),
      ih fun d hd => h d (List.mem_cons_of_mem _ hd)]

theorem trim_append_blanks (h : AllBlank blanks) (s : List Char) :
    trim (s ++ blanks) = trim s := by
  induction blanks generalizing s with
  | nil => rw [List.append_nil]
  | cons c blanks ih =>
    rw [List.append_cons, ih (fun d hd => h d (List.mem_cons_of_mem _ hd)) (s ++ [c]),
      trim_append_of_isBlank (h c List.mem_cons_self)]

theorem head?_dropWhile_isBlank (s : List Char) :
    ∀ c ∈ (s.dropWhile isBlank).head?, isBlank c = false := by
  intro c hc
  have h := List.head?_dropWhile_not isBlank s
  rw [Option.mem_def.mp hc] at h
  exact h

/-- The blanks that trimming takes off stand at the two ends. -/
theorem exists_eq_append_trim (s : List Char) :
    ∃ front back, AllBlank front ∧ AllBlank back ∧ s = front ++ (trim s ++ back) := by
  let kept := s.dropWhile isBlank
  refine ⟨s.takeWhile isBlank, (kept.reverse.takeWhile isBlank).reverse, allBlank_takeWhile s,
    fun c hc => allBlank_takeWhile _ c (List.mem_reverse.mp hc), ?_⟩
  have hkept : trim s ++ (kept.reverse.takeWhile isBlank).reverse = kept := by
    rw [trim, ← List.reverse_append, List.takeWhile_append_dropWhile, List.reverse_reverse]
  rw [hkept, List.takeWhile_append_dropWhile]

theorem isTrimmed_trim (s : List Char) : IsTrimmed (trim s) where
  head := by
    intro c hc
    -- What is first in the end was first once the blanks in front were gone.
    refine head?_dropWhile_isBlank s c ?_
    obtain ⟨back, hback⟩ : trim s <+: s.dropWhile isBlank := by
      rw [trim, ← List.reverse_suffix, List.reverse_reverse]
      exact List.dropWhile_suffix isBlank
    rw [← hback]
    exact List.mem_head?_append_of_mem_head? hc
  last := by
    rw [trim, List.getLast?_reverse]
    exact head?_dropWhile_isBlank _

/-- A text is trimmed to the one text without a blank at its ends that is left of it. -/
theorem trim_eq_iff : trim s = t ↔
    IsTrimmed t ∧ ∃ front back, AllBlank front ∧ AllBlank back ∧ s = front ++ (t ++ back) := by
  constructor
  · rintro rfl
    exact ⟨isTrimmed_trim s, exists_eq_append_trim s⟩
  · rintro ⟨ht, front, back, hfront, hback, rfl⟩
    rw [trim_blanks_append hfront, trim_append_blanks hback, ht.trim_eq]

theorem mem_trim_iff (hc : isBlank c = false) : c ∈ trim s ↔ c ∈ s := by
  obtain ⟨front, back, hfront, hback, hs⟩ := exists_eq_append_trim s
  nth_rewrite 2 [hs]
  simp [hfront.notMem hc, hback.notMem hc]

/-! ## Texts that were put together -/

theorem trim_eq_nil_iff : trim s = [] ↔ AllBlank s := by
  constructor
  · intro h
    obtain ⟨-, front, back, hfront, hback, rfl⟩ := trim_eq_iff.mp h
    exact hfront.append hback
  · intro h
    rw [← List.append_nil s, trim_blanks_append h]
    rfl

theorem trim_cons_ne_nil (hc : isBlank c = false) (s : List Char) : trim (c :: s) ≠ [] :=
  fun h => (trim_eq_nil_iff.mp h).notMem hc List.mem_cons_self

/-- What stands between two texts that are not blank is kept. -/
theorem exists_trim_append (hs : trim s ≠ []) (ht : trim t ≠ []) :
    ∃ blanks, AllBlank blanks ∧ trim (s ++ t) = trim s ++ (blanks ++ trim t) := by
  obtain ⟨front, inner, hfront, hinner, hs'⟩ := exists_eq_append_trim s
  obtain ⟨inner', back, hinner', hback, ht'⟩ := exists_eq_append_trim t
  refine ⟨inner ++ inner', hinner.append hinner', trim_eq_iff.mpr
    ⟨(isTrimmed_trim s).append hs (isTrimmed_trim t) ht _, front, back, hfront, hback, ?_⟩⟩
  nth_rewrite 1 [hs', ht']
  simp only [List.append_assoc]

/-- Behind a mark at the start of a text, its end is that of the rest. -/
theorem exists_trim_cons (hc : isBlank c = false) (s : List Char) :
    ∃ rest, trim (c :: s) = c :: rest ∧ rest.getLast? = (trim s).getLast? := by
  have hmark : trim [c] = [c] := (isTrimmed_singleton hc).trim_eq
  by_cases hs : trim s = []
  · refine ⟨[], ?_, by rw [hs]⟩
    rw [← List.singleton_append, trim_append_blanks (trim_eq_nil_iff.mp hs), hmark]
  · obtain ⟨blanks, -, htrim⟩ := exists_trim_append (trim_cons_ne_nil hc []) hs
    rw [hmark] at htrim
    exact ⟨blanks ++ trim s, htrim, List.getLast?_append_of_ne_nil _ hs⟩

/-- A text is longer with something behind it that is not a blank. -/
theorem length_trim_lt (hc : isBlank c = false) (s t : List Char) :
    (trim s).length < (trim (s ++ c :: t)).length := by
  have hrest : 0 < (trim (c :: t)).length := List.length_pos_iff.mpr (trim_cons_ne_nil hc t)
  by_cases hs : trim s = []
  · rw [trim_blanks_append (trim_eq_nil_iff.mp hs), hs]
    exact hrest
  · obtain ⟨blanks, -, htrim⟩ := exists_trim_append hs (trim_cons_ne_nil hc t)
    rw [htrim, List.length_append, List.length_append]
    omega

/-! ## Before a mark -/

theorem before_append_of_notMem (h : mark ∉ s) (t : List Char) :
    before mark (s ++ t) = s ++ before mark t :=
  List.takeWhile_append_of_pos fun _ hc => decide_eq_true fun heq => h (heq ▸ hc)

/-- Nothing behind a mark stands before the first one. -/
theorem before_append_cons (s t : List Char) : before mark (s ++ mark :: t) = before mark s := by
  by_cases h : mark ∈ s
  · obtain ⟨front, back, rfl, hfree⟩ := List.eq_append_cons_of_mem h
    rw [List.append_assoc, List.cons_append, before_append hfree, before_append hfree]
  · rw [before_append h, before_of_notMem h]

/-- Blanks at the end are not seen before a mark either. -/
theorem trim_before_append_blanks (h : AllBlank blanks) (s : List Char) :
    trim (before mark (s ++ blanks)) = trim (before mark s) := by
  by_cases hs : mark ∈ s
  · obtain ⟨front, back, rfl, hfree⟩ := List.eq_append_cons_of_mem hs
    rw [List.append_assoc, List.cons_append, before_append hfree, before_append hfree]
  · rw [before_append_of_notMem hs, before_of_notMem hs]
    exact trim_append_blanks (fun c hc => h c (List.takeWhile_subset _ hc)) s

theorem trim_before_trim (hmark : isBlank mark = false) (s : List Char) :
    trim (before mark (trim s)) = trim (before mark s) := by
  obtain ⟨front, back, hfront, hback, hs⟩ := exists_eq_append_trim s
  nth_rewrite 2 [hs]
  rw [before_append_of_notMem (hfront.notMem hmark), trim_blanks_append hfront,
    trim_before_append_blanks hback]

end Text

end Metrology
