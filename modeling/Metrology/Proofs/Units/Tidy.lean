import Mathlib
import Metrology.Proofs.Units.Vector

/-!
# Metrology.Proofs.Units.Tidy -- what tidying depends on

Of a marker tidying sees only that it stands there, and of an absent term nothing at all
(`Term.seen?`); the result is a function of what is seen (`tidy_filterMap_seen?`). Markers and absent
terms at the end are not noticed either, because a marker that has to be put in goes to the end
(`tidy_append_of_absent`).

Where exponents are whole numbers, what is seen of a term is settled by its label, which is what it
is written with besides its exponent, and by the whole number that it holds. So units with the same
labels and the same vector are the same once tidied, term for term (`tidy_eq_of_holds`). The two
zeros are no obstacle, as both count as absent.
-/

namespace Metrology

namespace Term

/-- What a term is written with, its exponent aside. -/
def label (t : Term) : Dimension × Option Prefix := (t.dimension, t.siPrefix)

/-- What tidying sees of a term. -/
def seen? (t : Term) : Option Term :=
  if t.isReciprocal then some .marker else if t.vanishes then none else some t

theorem seen?_of_isReciprocal {t : Term} (h : t.isReciprocal = true) : t.seen? = some .marker :=
  if_pos h

theorem seen?_of_vanishes {t : Term} (hr : t.isReciprocal = false) (hv : t.vanishes = true) :
    t.seen? = none := by
  simp [seen?, hr, hv]

/-- A term is a marker, an absent base dimension or a present one. -/
theorem seen?_cases (t : Term) :
    (t.isReciprocal = true ∧ t.isPresent = false ∧ t.seen? = some .marker) ∨
      (t.isReciprocal = false ∧ t.vanishes = true ∧ t.isPresent = false ∧ t.seen? = none) ∨
      (t.isReciprocal = false ∧ t.vanishes = false ∧ t.isPresent = true ∧ t.seen? = some t) := by
  unfold seen? isPresent
  cases t.isReciprocal <;> cases t.vanishes <;> simp

theorem inNumerator_of_isPresent_eq_false {t : Term} (h : t.isPresent = false) :
    t.inNumerator = false := by
  by_contra hn
  rw [Bool.not_eq_false] at hn
  rw [isPresent_of_inNumerator hn] at h
  cases h

/-- Terms with one label that hold one whole number look the same. -/
theorem seen?_eq_of_holds {t u : Term} {z : Int} (hlabel : t.label = u.label)
    (ht : t.dimension ≠ .reciprocal → t.exponent.Holds z)
    (hu : u.dimension ≠ .reciprocal → u.exponent.Holds z) : t.seen? = u.seen? := by
  obtain ⟨hdimension, hprefix⟩ := Prod.mk.inj hlabel
  by_cases hd : t.dimension = .reciprocal
  · rw [seen?_of_isReciprocal ((isReciprocal_iff t).mpr hd),
      seen?_of_isReciprocal ((isReciprocal_iff u).mpr (hdimension ▸ hd))]
  · have hd' : u.dimension ≠ .reciprocal := hdimension ▸ hd
    by_cases hz : z = 0
    · subst hz
      rw [seen?_of_vanishes ((isReciprocal_eq_false_iff t).mpr hd) (ht hd).vanishes_eq,
        seen?_of_vanishes ((isReciprocal_eq_false_iff u).mpr hd') (hu hd').vanishes_eq]
    · -- Other than zero, a whole number is held by one number only.
      have hexponent : t.exponent = u.exponent := by
        rw [(ht hd).eq_ofInt hz, (hu hd').eq_ofInt hz]
      obtain ⟨d, x, p⟩ := t
      obtain ⟨e, y, q⟩ := u
      cases hdimension
      cases hprefix
      cases hexponent
      rfl

end Term

namespace Units

/-! ## A function of what is seen -/

theorem any_inNumerator_filterMap_seen? (units : Units) :
    (units.filterMap Term.seen?).any Term.inNumerator = units.any Term.inNumerator := by
  induction units with
  | nil => rfl
  | cons t ts ih =>
    rw [List.any_cons, ← ih]
    obtain ⟨-, hp, hs⟩ | ⟨-, -, hp, hs⟩ | ⟨-, -, -, hs⟩ := t.seen?_cases
    · rw [List.filterMap_cons_some hs, List.any_cons, Term.inNumerator_of_isPresent_eq_false hp]
      rfl
    · rw [List.filterMap_cons_none hs, Term.inNumerator_of_isPresent_eq_false hp, Bool.false_or]
    · rw [List.filterMap_cons_some hs, List.any_cons]

theorem filter_isPresent_filterMap_seen? (units : Units) :
    (units.filterMap Term.seen?).filter Term.isPresent = units.filter Term.isPresent := by
  induction units with
  | nil => rfl
  | cons t ts ih =>
    obtain ⟨-, hp, hs⟩ | ⟨-, -, hp, hs⟩ | ⟨-, -, hp, hs⟩ := t.seen?_cases
    · rw [List.filterMap_cons_some hs, List.filter_cons_of_neg (by decide), ih,
        List.filter_cons_of_neg (by simp [hp])]
    · rw [List.filterMap_cons_none hs, ih, List.filter_cons_of_neg (by simp [hp])]
    · rw [List.filterMap_cons_some hs, List.filter_cons_of_pos hp, ih, List.filter_cons_of_pos hp]

theorem tidyMarked_filterMap_seen? (units : Units) :
    tidyMarked (units.filterMap Term.seen?) = tidyMarked units := by
  induction units with
  | nil => rfl
  | cons t ts ih =>
    obtain ⟨hr, -, hs⟩ | ⟨hr, hv, -, hs⟩ | ⟨hr, hv, -, hs⟩ := t.seen?_cases
    · rw [List.filterMap_cons_some hs, tidyMarked, tidyMarked, if_pos Term.isReciprocal_marker,
        if_pos hr, filter_isPresent_filterMap_seen?]
    · rw [List.filterMap_cons_none hs, ih]
      simp [tidyMarked, hr, hv]
    · rw [List.filterMap_cons_some hs]
      simp [tidyMarked, hr, hv, ih]

/-- Tidying what is seen of units gives what tidying the units gives. -/
theorem tidy_filterMap_seen? (units : Units) : tidy (units.filterMap Term.seen?) = tidy units := by
  unfold tidy
  rw [any_inNumerator_filterMap_seen?, filter_isPresent_filterMap_seen?, tidyMarked_filterMap_seen?]

/-- Units with the same labels and the same vector are the same once tidied. -/
theorem tidy_eq_of_holds {a b : Units} {v : Dimension → Int}
    (hlabels : a.map Term.label = b.map Term.label)
    (ha : ∀ t ∈ a, t.dimension ≠ .reciprocal → t.exponent.Holds (v t.dimension))
    (hb : ∀ t ∈ b, t.dimension ≠ .reciprocal → t.exponent.Holds (v t.dimension)) :
    tidy a = tidy b := by
  have hseen : a.filterMap Term.seen? = b.filterMap Term.seen? := by
    induction a generalizing b with
    | nil =>
      rw [List.map_nil, eq_comm, List.map_eq_nil_iff] at hlabels
      rw [hlabels]
    | cons t ts ih =>
      cases b with
      | nil => cases hlabels
      | cons u us =>
        rw [List.map_cons, List.map_cons, List.cons.injEq] at hlabels
        rw [List.forall_mem_cons] at ha hb
        have hdimension : t.dimension = u.dimension := (Prod.mk.inj hlabels.1).1
        rw [List.filterMap_cons, List.filterMap_cons, ih hlabels.2 ha.2 hb.2,
          Term.seen?_eq_of_holds hlabels.1 ha.1 (hdimension ▸ hb.1)]
  rw [← tidy_filterMap_seen? a, hseen, tidy_filterMap_seen?]

/-! ## Absent terms at the end -/

section

variable {units extra : Units}

theorem filter_isPresent_of_absent (h : ∀ t ∈ extra, t.isPresent = false) :
    extra.filter Term.isPresent = [] := by
  rw [List.filter_eq_nil_iff]
  intro t ht
  rw [h t ht]
  exact Bool.false_ne_true

theorem tidyMarked_of_absent (h : ∀ t ∈ extra, t.isPresent = false) :
    tidyMarked extra = [.marker] := by
  induction extra with
  | nil => rfl
  | cons t ts ih =>
    rw [List.forall_mem_cons] at h
    obtain ⟨hr, -, -⟩ | ⟨hr, hv, -, -⟩ | ⟨-, -, hp, -⟩ := t.seen?_cases
    · rw [tidyMarked, if_pos hr, filter_isPresent_of_absent h.2]
    · rw [tidyMarked, hr, hv]
      exact ih h.2
    · rw [h.1] at hp
      cases hp

theorem tidyMarked_append_of_absent (h : ∀ t ∈ extra, t.isPresent = false) :
    tidyMarked (units ++ extra) = tidyMarked units := by
  induction units with
  | nil => exact tidyMarked_of_absent h
  | cons t ts ih =>
    rw [List.cons_append, tidyMarked, tidyMarked, ih, List.filter_append,
      filter_isPresent_of_absent h, List.append_nil]

/-- Markers and absent terms at the end make no difference. -/
theorem tidy_append_of_absent (h : ∀ t ∈ extra, t.isPresent = false) :
    tidy (units ++ extra) = tidy units := by
  have hnumerator : extra.any Term.inNumerator = false := by
    rw [List.any_eq_false]
    intro t ht
    rw [Term.inNumerator_of_isPresent_eq_false (h t ht)]
    exact Bool.false_ne_true
  unfold tidy
  rw [List.any_append, hnumerator, Bool.or_false, List.filter_append,
    filter_isPresent_of_absent h, List.append_nil, tidyMarked_append_of_absent h]

end

end Units

end Metrology
