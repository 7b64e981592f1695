import Mathlib
import Metrology.Units.Basic

/-!
# Metrology.Proofs.Units.Normal -- the normal form of a unit

`Units.Normal` says what a unit in normal form is, without saying how it is reached: the list is not
empty, each dimension stands once, no base dimension counts as absent, and there is one marker when
nothing stands in the numerator and none otherwise.

The two halves of `normalize` each establish a part of it. `collect` makes the dimensions distinct
(`nodup_collect`) and keeps a list in which they already are (`collect_of_nodup`). `tidy` is, up to
the place of the marker, a filter (`tidy_perm`), so it settles the rest (`normal_tidy`) and keeps a
normal unit term for term (`tidy_of_normal`). So the normal units are exactly what `normalize` leaves
as it is (`normalize_eq_self_iff`). Exponents are any numbers here, NaN and the infinities included:
nothing in this file computes with them.
-/

namespace Metrology

namespace Term

@[simp] theorem isReciprocal_marker : marker.isReciprocal = true := rfl

theorem isReciprocal_iff (t : Term) : t.isReciprocal = true ↔ t.dimension = .reciprocal := by
  simp [isReciprocal]

theorem isReciprocal_eq_false_iff (t : Term) :
    t.isReciprocal = false ↔ t.dimension ≠ .reciprocal := by
  simp [isReciprocal]

theorem isPresent_iff (t : Term) :
    t.isPresent = true ↔ t.isReciprocal = false ∧ t.vanishes = false := by
  simp [isPresent]

/-- What stands in the numerator is present. -/
theorem isPresent_of_inNumerator {t : Term} (h : t.inNumerator = true) : t.isPresent = true := by
  simp only [inNumerator, Bool.and_eq_true, Bool.not_eq_true'] at h
  exact (isPresent_iff t).mpr ⟨h.1.1, h.2⟩

end Term

namespace Units

/-- The normal form of units. -/
structure Normal (units : Units) : Prop where
  nonempty : units ≠ []
  distinct : (units.map Term.dimension).Nodup
  present : ∀ t ∈ units, t.isReciprocal = false → t.vanishes = false
  /-- Without a numerator there is exactly one marker, with exponent one and no prefix. -/
  markers : units.filter Term.isReciprocal = if units.any Term.inNumerator then [] else [.marker]

/-- In normal form, a term of the marker's dimension is the marker. -/
theorem Normal.eq_marker {units : Units} (h : units.Normal) {t : Term} (ht : t ∈ units)
    (hr : t.dimension = .reciprocal) : t = .marker := by
  have hmem : t ∈ units.filter Term.isReciprocal :=
    List.mem_filter.mpr ⟨ht, (Term.isReciprocal_iff t).mpr hr⟩
  rw [h.markers] at hmem
  split at hmem
  · exact absurd hmem List.not_mem_nil
  · exact List.mem_singleton.mp hmem

/-! ## Gathering repeated dimensions -/

theorem map_dimension_absorb (units : Units) (t : Term) :
    (absorb units t).map Term.dimension =
      if t.dimension ∈ units.map Term.dimension then units.map Term.dimension
      else units.map Term.dimension ++ [t.dimension] := by
  induction units with
  | nil => rfl
  | cons u us ih =>
    by_cases h : u.dimension = t.dimension
    · simp [absorb, h]
    · have h' : t.dimension ≠ u.dimension := fun e => h e.symm
      rw [absorb, if_neg h, List.map_cons, ih]
      by_cases hmem : t.dimension ∈ us.map Term.dimension
      · rw [if_pos hmem, List.map_cons, if_pos (List.mem_cons_of_mem _ hmem)]
      · rw [if_neg hmem, List.map_cons, if_neg (by simp [h', hmem]), List.cons_append]

theorem nodup_absorb {units : Units} (h : (units.map Term.dimension).Nodup) (t : Term) :
    ((absorb units t).map Term.dimension).Nodup := by
  rw [map_dimension_absorb]
  split
  · exact h
  · next hmem =>
    refine List.nodup_append.mpr ⟨h, List.nodup_singleton _, ?_⟩
    intro d hd e he hde
    rw [List.mem_singleton.mp he] at hde
    exact hmem (hde ▸ hd)

theorem absorb_of_notMem {units : Units} {t : Term}
    (h : t.dimension ∉ units.map Term.dimension) : absorb units t = units ++ [t] := by
  induction units with
  | nil => rfl
  | cons u us ih =>
    simp only [List.map_cons, List.mem_cons, not_or] at h
    rw [absorb, if_neg (fun e => h.1 e.symm), ih h.2, List.cons_append]

/-- Gathering goes on from the units gathered so far, in which dimensions are distinct. -/
theorem nodup_foldl_absorb (units : Units) :
    ∀ gathered : Units, (gathered.map Term.dimension).Nodup →
      ((units.foldl absorb gathered).map Term.dimension).Nodup := by
  induction units with
  | nil => intro gathered h; exact h
  | cons t ts ih => intro gathered h; exact ih _ (nodup_absorb h t)

/-- After gathering, no dimension stands twice. -/
theorem nodup_collect (units : Units) : ((collect units).map Term.dimension).Nodup :=
  nodup_foldl_absorb units [] List.nodup_nil

theorem foldl_absorb_of_nodup (units : Units) :
    ∀ gathered : Units, ((gathered ++ units).map Term.dimension).Nodup →
      units.foldl absorb gathered = gathered ++ units := by
  induction units with
  | nil => intro gathered _; simp
  | cons t ts ih =>
    intro gathered h
    -- The next term is of a dimension that was not gathered yet, so it goes to the end.
    have hfresh : t.dimension ∉ gathered.map Term.dimension := by
      rw [List.map_append, List.map_cons, List.nodup_middle, List.nodup_cons] at h
      exact fun hmem => h.1 (List.mem_append_left _ hmem)
    rw [List.foldl_cons, absorb_of_notMem hfresh, ih, List.append_assoc, List.singleton_append]
    rwa [List.append_assoc, List.singleton_append]

/-- Units in which no dimension stands twice are gathered already. -/
theorem collect_of_nodup {units : Units} (h : (units.map Term.dimension).Nodup) :
    collect units = units :=
  foldl_absorb_of_nodup units [] h

/-! ## Settling the marker -/

/-- Without a numerator, tidying drops the absent terms and puts in one marker. -/
theorem tidyMarked_perm (units : Units) :
    (tidyMarked units).Perm (.marker :: units.filter Term.isPresent) := by
  induction units with
  | nil => exact List.Perm.refl _
  | cons t ts ih =>
    unfold tidyMarked
    by_cases hr : t.isReciprocal = true
    · -- The marker takes the place of the first one; what follows is filtered as a whole.
      rw [if_pos hr, List.filter_cons_of_neg (by simp [Term.isPresent, hr])]
    · by_cases hv : t.vanishes = true
      · rw [if_neg hr, if_pos hv, List.filter_cons_of_neg (by simp [Term.isPresent, hv])]
        exact ih
      · have hp : t.isPresent = true := by simp [Term.isPresent, hr, hv]
        rw [if_neg hr, if_neg hv, List.filter_cons_of_pos hp]
        exact (ih.cons t).trans (List.Perm.swap _ _ _)

/-- Up to the place of the marker, tidying is a filter. -/
theorem tidy_perm (units : Units) :
    (tidy units).Perm
      (if units.any Term.inNumerator then units.filter Term.isPresent
       else .marker :: units.filter Term.isPresent) := by
  unfold tidy
  split
  · exact List.Perm.refl _
  · exact tidyMarked_perm units

/-- A tidy unit has a marker or a present term, and nothing else. -/
theorem mem_tidy {units : Units} {t : Term} (h : t ∈ tidy units) :
    t = .marker ∨ (t ∈ units ∧ t.isPresent = true) := by
  have h' := (tidy_perm units).mem_iff.mp h
  split at h'
  · exact .inr (List.mem_filter.mp h')
  · exact (List.mem_cons.mp h').imp id List.mem_filter.mp

theorem filter_isReciprocal_filter_isPresent (units : Units) :
    (units.filter Term.isPresent).filter Term.isReciprocal = [] := by
  rw [List.filter_eq_nil_iff]
  intro t ht
  rw [((Term.isPresent_iff t).mp (List.mem_filter.mp ht).2).1]
  exact Bool.false_ne_true

/-- The numerator is what it was, since everything in it is present. -/
theorem any_inNumerator_filter_isPresent (units : Units) :
    (units.filter Term.isPresent).any Term.inNumerator = units.any Term.inNumerator := by
  rw [Bool.eq_iff_iff, List.any_eq_true, List.any_eq_true]
  constructor
  · rintro ⟨t, ht, hn⟩
    exact ⟨t, (List.mem_filter.mp ht).1, hn⟩
  · rintro ⟨t, ht, hn⟩
    exact ⟨t, List.mem_filter.mpr ⟨ht, Term.isPresent_of_inNumerator hn⟩, hn⟩

theorem any_inNumerator_tidy (units : Units) :
    (tidy units).any Term.inNumerator = units.any Term.inNumerator := by
  rw [(tidy_perm units).any_eq, ← any_inNumerator_filter_isPresent units]
  split
  · rfl
  · rw [List.any_cons]
    rfl

theorem filter_isReciprocal_tidy (units : Units) :
    (tidy units).filter Term.isReciprocal =
      if units.any Term.inNumerator then [] else [.marker] := by
  have h := (tidy_perm units).filter Term.isReciprocal
  by_cases hn : units.any Term.inNumerator = true
  · rw [if_pos hn, filter_isReciprocal_filter_isPresent] at h
    rw [if_pos hn]
    exact h.eq_nil
  · rw [if_neg hn, List.filter_cons_of_pos Term.isReciprocal_marker,
      filter_isReciprocal_filter_isPresent] at h
    rw [if_neg hn]
    exact List.perm_singleton.mp h

theorem nodup_filter_isPresent {units : Units} (h : (units.map Term.dimension).Nodup) :
    ((units.filter Term.isPresent).map Term.dimension).Nodup :=
  h.sublist (List.filter_sublist.map _)

/-- No present term has the dimension of the marker. -/
theorem reciprocal_notMem_filter_isPresent (units : Units) :
    Dimension.reciprocal ∉ (units.filter Term.isPresent).map Term.dimension := by
  intro hmem
  obtain ⟨t, ht, hd⟩ := List.mem_map.mp hmem
  have hp := (Term.isPresent_iff t).mp (List.mem_filter.mp ht).2
  rw [(Term.isReciprocal_iff t).mpr hd] at hp
  exact Bool.noConfusion hp.1

theorem nodup_tidy {units : Units} (h : (units.map Term.dimension).Nodup) :
    ((tidy units).map Term.dimension).Nodup := by
  rw [((tidy_perm units).map Term.dimension).nodup_iff]
  split
  · exact nodup_filter_isPresent h
  · exact List.nodup_cons.mpr
      ⟨reciprocal_notMem_filter_isPresent units, nodup_filter_isPresent h⟩

/-- Whatever is tidied, no base dimension that counts as absent is left. -/
theorem present_tidy (units : Units) :
    ∀ t ∈ tidy units, t.isReciprocal = false → t.vanishes = false := by
  intro t ht hr
  rcases mem_tidy ht with rfl | ⟨_, hp⟩
  · exact Bool.noConfusion hr
  · exact ((Term.isPresent_iff t).mp hp).2

/-- Whatever is tidied, the marker stands there exactly when there is no numerator. -/
theorem markers_tidy (units : Units) :
    (tidy units).filter Term.isReciprocal =
      if (tidy units).any Term.inNumerator then [] else [.marker] := by
  rw [filter_isReciprocal_tidy, any_inNumerator_tidy]

/-- Tidying brings units with distinct dimensions into normal form. -/
theorem normal_tidy {units : Units} (h : (units.map Term.dimension).Nodup) :
    (tidy units).Normal where
  nonempty := by
    -- No term at all would mean no numerator, and so a marker.
    intro hnil
    have hm := filter_isReciprocal_tidy units
    have hn := any_inNumerator_tidy units
    rw [hnil] at hm hn
    rw [← hn] at hm
    simp at hm
  distinct := nodup_tidy h
  present := present_tidy units
  markers := markers_tidy units

/-- Every unit that comes out of `normalize` is in normal form. -/
theorem normal_normalize (units : Units) : units.normalize.Normal :=
  normal_tidy (nodup_collect units)

/-! ## Normal units are kept -/

/-- With one marker and no absent term, there is nothing to drop and nothing to put in. -/
theorem tidyMarked_of_markers {units : Units}
    (hpresent : ∀ t ∈ units, t.isReciprocal = false → t.vanishes = false)
    (hmarkers : units.filter Term.isReciprocal = [.marker]) : tidyMarked units = units := by
  induction units with
  | nil => simp at hmarkers
  | cons t ts ih =>
    have hrest : ∀ u ∈ ts, u.isReciprocal = false → u.vanishes = false :=
      fun u hu => hpresent u (List.mem_cons_of_mem _ hu)
    unfold tidyMarked
    by_cases hr : t.isReciprocal = true
    · -- The first marker is the only one, so what follows is present as a whole.
      rw [List.filter_cons_of_pos hr, List.cons.injEq] at hmarkers
      rw [if_pos hr, hmarkers.1, List.filter_eq_self.mpr]
      intro u hu
      have hnr := List.filter_eq_nil_iff.mp hmarkers.2 u hu
      rw [Bool.not_eq_true] at hnr
      exact (Term.isPresent_iff u).mpr ⟨hnr, hrest u hu hnr⟩
    · rw [List.filter_cons_of_neg hr] at hmarkers
      rw [Bool.not_eq_true] at hr
      rw [hr, hpresent t List.mem_cons_self hr, ih hrest hmarkers]
      rfl

/-- Where no base dimension counts as absent and the marker is settled, tidying changes nothing. That
dimensions are distinct has no part in this. -/
theorem tidy_of_markers {units : Units}
    (hpresent : ∀ t ∈ units, t.isReciprocal = false → t.vanishes = false)
    (hmarkers : units.filter Term.isReciprocal =
      if units.any Term.inNumerator then [] else [.marker]) : tidy units = units := by
  unfold tidy
  split
  · next hn =>
    -- Beside a numerator there is no marker, and everything else is present.
    rw [if_pos hn, List.filter_eq_nil_iff] at hmarkers
    rw [List.filter_eq_self]
    intro t ht
    have hr := hmarkers t ht
    rw [Bool.not_eq_true] at hr
    exact (Term.isPresent_iff t).mpr ⟨hr, hpresent t ht hr⟩
  · next hn =>
    rw [if_neg hn] at hmarkers
    exact tidyMarked_of_markers hpresent hmarkers

theorem tidy_of_normal {units : Units} (h : units.Normal) : tidy units = units :=
  tidy_of_markers h.present h.markers

/-- A normal unit is its own normal form, term for term. -/
theorem normalize_of_normal {units : Units} (h : units.Normal) : normalize units = units := by
  rw [normalize, collect_of_nodup h.distinct, tidy_of_normal h]

/-! ## Fixed points -/

/-- What tidying leaves as it is. -/
theorem tidy_eq_self_iff {units : Units} :
    tidy units = units ↔
      (∀ t ∈ units, t.isReciprocal = false → t.vanishes = false) ∧
        units.filter Term.isReciprocal =
          if units.any Term.inNumerator then [] else [.marker] := by
  constructor
  · intro h
    exact ⟨h ▸ present_tidy units, h ▸ markers_tidy units⟩
  · rintro ⟨hpresent, hmarkers⟩
    exact tidy_of_markers hpresent hmarkers

/-- What normalizing leaves as it is: the normal units, and no others. -/
theorem normalize_eq_self_iff {units : Units} : normalize units = units ↔ units.Normal := by
  constructor
  · intro h
    exact h ▸ normal_normalize units
  · exact normalize_of_normal

/-- **Normalizing is a projection onto the normal units.** A second tidying and a second
normalization change no term, and what normalizing keeps term for term are exactly the units in
normal form. The exponents are any numbers, and dimensions may be repeated. -/
theorem normalize_projection (units : Units) :
    tidy (tidy units) = tidy units ∧ normalize (normalize units) = normalize units ∧
      (normalize units = units ↔ units.Normal) :=
  ⟨tidy_eq_self_iff.mpr ⟨present_tidy units, markers_tidy units⟩,
    normalize_eq_self_iff.mpr (normal_normalize units), normalize_eq_self_iff⟩

end Units

end Metrology
