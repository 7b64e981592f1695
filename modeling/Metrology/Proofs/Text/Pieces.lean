import Mathlib
import Metrology.Proofs.Text.Trim

/-!
# Metrology.Proofs.Text.Pieces -- two ways to cut, and the pieces they agree on

A mark can separate the pieces of a text or terminate them. Where it separates them nothing is lost:
there is one piece more than there are marks, none of them contains the mark, and joined with the
mark they are the text again. Where it terminates them an empty last piece is lost. A list of items
is cut in the second way, but it drops what is empty once trimmed, and so it is what is left of the
pieces that are cut in the first (`items_eq_filter_separated`). That holds for any mark, also for
one that is itself a blank.
-/

namespace Metrology

namespace Text

variable {mark : Char}

/-! ## Pieces that a mark separates -/

theorem separated_ne_nil (s : List Char) : separated mark s ≠ [] := by
  rw [separated_eq_splitOn]
  exact List.splitOn_ne_nil mark s

/-- There is one piece more than there are marks. -/
theorem length_separated (s : List Char) : (separated mark s).length = s.count mark + 1 := by
  induction s with
  | nil => rfl
  | cons c s ih =>
    rw [separated]
    split_ifs with hc
    · simp [hc, ih]
    · -- A character that is no mark goes to the first piece, and there is one.
      have hne : separated mark s ≠ [] := separated_ne_nil s
      obtain ⟨piece, pieces, hpieces⟩ := List.exists_cons_of_ne_nil hne
      rw [hpieces] at ih ⊢
      simp [hc, ← ih]

theorem notMem_of_mem_separated {s piece : List Char} (h : piece ∈ separated mark s) :
    mark ∉ piece := by
  rw [separated_eq_splitOn] at h
  exact notMem_of_mem_splitOn h

/-- Joined with the mark the pieces are the text again. -/
theorem intercalate_separated (s : List Char) : [mark].intercalate (separated mark s) = s := by
  rw [separated_eq_splitOn]
  exact List.intercalate_splitOn mark

theorem separated_intercalate {parts : List (List Char)} (hne : parts ≠ [])
    (h : ∀ part ∈ parts, mark ∉ part) : separated mark ([mark].intercalate parts) = parts := by
  rw [separated_eq_splitOn]
  exact List.splitOn_intercalate mark h hne

/-! ## Items -/

/-- The items of a text are its pieces, trimmed, as far as something is left of them. The one piece
that separating has beyond terminating is empty, and so it is none of them. -/
theorem items_eq_filter_separated (s : List Char) :
    items mark s = ((separated mark s).map trim).filter fun item => !item.isEmpty := by
  obtain ⟨rest, hrest, hcut⟩ := exists_splitOn_eq_terminated_append mark s
  have hdropped : (rest.map trim).filter (fun item => !item.isEmpty) = [] := by
    rcases hrest with rfl | rfl <;> rfl
  rw [separated_eq_splitOn, hcut, List.map_append, List.filter_append, hdropped, List.append_nil,
    items]

/-- Items that are joined with the mark come back as they are. -/
theorem items_intercalate {parts : List (List Char)} (h : ∀ part ∈ parts, IsItem mark part) :
    items mark ([mark].intercalate parts) = parts := by
  by_cases hne : parts = []
  · subst hne
    rfl
  · have htrim : parts.map trim = parts := by
      nth_rewrite 2 [← List.map_id parts]
      exact List.map_congr_left fun part hp => (h part hp).trimmed.trim_eq
    have hfilled : ∀ part ∈ parts, (!part.isEmpty) = true := by
      intro part hp
      simpa using (h part hp).nonempty
    rw [items_eq_filter_separated, separated_intercalate hne fun part hp => (h part hp).free, htrim,
      List.filter_eq_self.mpr hfilled]

/-- **The two ways to cut a text lose nothing and agree.** Cut into the pieces that a mark
separates, a text has one piece more than it has marks, no piece contains the mark, and joined with
the mark the pieces are the text again. Its items are these pieces in their order, trimmed, without
those of which nothing is left. So texts that are trimmed, not empty and without the mark come back
as the items of what they are joined to. -/
theorem pieces_and_items (mark : Char) :
    (∀ s, (separated mark s).length = s.count mark + 1 ∧
      (∀ piece ∈ separated mark s, mark ∉ piece) ∧
      [mark].intercalate (separated mark s) = s ∧
      items mark s = ((separated mark s).map trim).filter fun item => !item.isEmpty) ∧
    ∀ parts : List (List Char), (∀ part ∈ parts, IsItem mark part) →
      items mark ([mark].intercalate parts) = parts := by
  refine ⟨fun s => ⟨length_separated s, fun piece hp => notMem_of_mem_separated hp,
    intercalate_separated s, items_eq_filter_separated s⟩, fun parts h => items_intercalate h⟩

/-- A list with an item that has a blank in its middle, and a mark that is a blank itself. -/
theorem pieces_and_items_words :
    let parts := ["m:1".toList, "km h:3.6".toList]
    (∀ part ∈ parts, IsItem ',' part) ∧ items ',' ([','].intercalate parts) = parts ∧
      items ' ' " a  b ".toList =
        ((separated ' ' " a  b ".toList).map trim).filter fun item => !item.isEmpty := by
  intro parts
  have hitems : ∀ part ∈ parts, IsItem ',' part := by
    rw [List.forall_mem_cons, List.forall_mem_singleton]
    exact ⟨⟨by decide, by decide, by decide⟩, ⟨by decide, by decide, by decide⟩⟩
  exact ⟨hitems, (pieces_and_items ',').2 parts hitems,
    ((pieces_and_items ' ').1 " a  b ".toList).2.2.2⟩

end Text

end Metrology
