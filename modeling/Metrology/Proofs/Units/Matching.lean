import Mathlib
import Metrology.Proofs.Binary64.Order
import Metrology.Proofs.Units.SameDimensions

/-!
# Metrology.Proofs.Units.Matching -- units that match

`matching` lets each term of one list take a free term of the other that agrees with it, always the
first one. What is taken is set apart by `without?`: a split of the list up to order
(`exists_perm_of_without?`), which fails only where nothing agrees (`without?_eq_none_iff`).

Agreement is symmetric, but not transitive. Being symmetric is enough for the two lists to change
places (`matching_comm`): the head of either list can be the one that takes first
(`matching_cons_left`), since of two heads that agree each is the first choice of the other.

Where agreement is equality of some key, it does not matter which term is taken, and what matches
are the lists with the same keys up to order (`matching_iff_perm`). Whole exponents have such a key
(`Term.power`). So has any list in which no dimension stands twice, namely the dimension itself, as
soon as its terms have partners; there the count of `sameDimensions` is a matching
(`matching_eq_sameDimensions`).
-/

namespace Metrology

namespace Term

theorem agrees_comm (t u : Term) : t.agrees u = u.agrees t := by
  unfold agrees
  rw [Binary64.close_comm]
  simp [eq_comm]

/-- The dimension and its whole exponent; the two zeros are one whole number. -/
def power (t : Term) : Dimension × Int := (t.dimension, t.exponent.toInt)

/-- Terms with whole exponents agree when they are the same power. -/
theorem agrees_iff_power_eq {t u : Term} (ht : t.exponent.IsWhole) (hu : u.exponent.IsWhole) :
    t.agrees u = true ↔ t.power = u.power := by
  rw [Units.agrees_iff, ht.close_eq hu, decide_eq_true_eq, power, power, Prod.mk.injEq]

end Term

namespace Units

/-! ## Taking a term -/

theorem without?_eq_none_iff {t : Term} {units : Units} :
    without? t units = none ↔ ∀ u ∈ units, u.agrees t = false := by
  induction units with
  | nil => simp [without?]
  | cons w ws ih =>
    rw [without?, List.forall_mem_cons]
    cases w.agrees t with
    | false => simp [ih]
    | true => simp

/-- What is taken agrees, and the others are left. -/
theorem exists_perm_of_without? {t : Term} {units rest : Units} (h : without? t units = some rest) :
    ∃ v, v.agrees t = true ∧ units.Perm (v :: rest) := by
  induction units generalizing rest with
  | nil => cases h
  | cons w ws ih =>
    rw [without?] at h
    split at h
    · next hw =>
      cases h
      exact ⟨w, hw, List.Perm.refl _⟩
    · obtain ⟨left, hleft, rfl⟩ := Option.map_eq_some_iff.mp h
      obtain ⟨v, hv, hperm⟩ := ih hleft
      exact ⟨v, hv, (hperm.cons w).trans (List.Perm.swap _ _ _)⟩

/-! ## Changing places -/

/-- The first term of the left list takes the first free term that agrees with it, just as a term of
the right list does. The induction is on the right list: where its head and the left one do not
agree, each takes from what follows the other, and neither is in the other's way. -/
theorem matching_cons_left (u : Term) (a b : Units) :
    matching (u :: a) b =
      match without? u b with
      | none => false
      | some rest => matching a rest := by
  induction b generalizing a with
  | nil => rfl
  | cons t ts ih =>
    rw [matching, without?, without?, Term.agrees_comm t u]
    cases u.agrees t with
    | true => rfl
    | false =>
      cases hleft : without? t a with
      | none =>
        cases without? u ts with
        | none => rfl
        | some rest => simp [matching, hleft]
      | some left =>
        simp only [Bool.false_eq_true, if_false, Option.map_some]
        rw [ih]
        cases without? u ts with
        | none => rfl
        | some rest => simp [matching, hleft]

/-- Units match in either order. -/
theorem matching_comm (a b : Units) : matching a b = matching b a := by
  induction a generalizing b with
  | nil =>
    cases b with
    | nil => rfl
    | cons t ts => rfl
  | cons u us ih =>
    rw [matching_cons_left, matching]
    cases without? u b with
    | none => rfl
    | some rest => exact ih rest

/-! ## Matching by a key -/

/-- Where terms agree exactly when a key of them is the same, units match exactly when their keys
are the same up to order. -/
theorem matching_iff_perm {κ : Type} (key : Term → κ) {a b : Units}
    (hkey : ∀ u ∈ a, ∀ t ∈ b, u.agrees t = true ↔ key u = key t) :
    matching a b = true ↔ (a.map key).Perm (b.map key) := by
  induction b generalizing a with
  | nil => rw [matching, List.isEmpty_iff, List.map_nil, List.perm_nil, List.map_eq_nil_iff]
  | cons t ts ih =>
    rw [matching, List.map_cons]
    cases hrest : without? t a with
    | none =>
      -- Nothing has the key of `t`, so the keys can not be the same.
      rw [without?_eq_none_iff] at hrest
      refine iff_of_false Bool.false_ne_true fun hperm => ?_
      obtain ⟨u, hu, hut⟩ := List.mem_map.mp (hperm.mem_iff.mpr List.mem_cons_self)
      have hagree : u.agrees t = true := (hkey u hu t List.mem_cons_self).mpr hut
      rw [hrest u hu] at hagree
      cases hagree
    | some rest =>
      obtain ⟨v, hv, hsplit⟩ := exists_perm_of_without? hrest
      have hvt : key v = key t :=
        (hkey v (hsplit.mem_iff.mpr List.mem_cons_self) t List.mem_cons_self).mp hv
      have hothers : ∀ u ∈ rest, ∀ s ∈ ts, u.agrees s = true ↔ key u = key s :=
        fun u hu s hs =>
          hkey u (hsplit.mem_iff.mpr (List.mem_cons_of_mem _ hu)) s (List.mem_cons_of_mem _ hs)
      have hkeys : (a.map key).Perm (key t :: rest.map key) := by
        rw [← hvt]
        exact hsplit.map key
      rw [ih hothers, hkeys.congr_left, List.perm_cons]

/-- **Matching is symmetric, and on whole exponents it is equality up to order.** For any two lists
of terms the answer is the same either way round, although a term takes the first free one that
agrees with it and agreement is not transitive; only that agreement is symmetric counts. Where all
exponents are whole numbers, of whatever size, two lists match exactly when they are permutations of
each other as lists of dimensions with their exponents. -/
theorem matching_symmetric :
    (∀ t u : Term, t.agrees u = u.agrees t) ∧
    (¬ ∀ t u v : Term, t.agrees u = true → u.agrees v = true → t.agrees v = true) ∧
    (∀ a b : Units, matching a b = matching b a) ∧
    ∀ a b : Units, (∀ t ∈ a ++ b, t.exponent.IsWhole) →
      (matching a b = true ↔ (a.map Term.power).Perm (b.map Term.power)) := by
  refine ⟨Term.agrees_comm, ?_, matching_comm, ?_⟩
  · intro htrans
    have h := htrans ⟨.time, 0, none⟩ ⟨.time, 6e-11, none⟩ ⟨.time, 1.2e-10, none⟩
      (by decide +kernel) (by decide +kernel)
    revert h
    decide +kernel
  · intro a b hwhole
    rw [List.forall_mem_append] at hwhole
    exact matching_iff_perm Term.power fun u hu t ht =>
      Term.agrees_iff_power_eq (hwhole.1 u hu) (hwhole.2 t ht)

/-- Times and a length in two orders, with a dimension that stands three times, a zero of either
sign and other prefixes; and a third list, whose terms all have partners, but not enough of one
kind. -/
theorem matching_symmetric_times :
    let a : Units :=
      [⟨.time, 2, none⟩, ⟨.length, -1, some .kilo⟩, ⟨.time, 0, none⟩, ⟨.time, 2, some .milli⟩]
    let b : Units :=
      [⟨.time, -0.0, none⟩, ⟨.time, 2, none⟩, ⟨.time, 2, none⟩, ⟨.length, -1, none⟩]
    let c : Units :=
      [⟨.time, 2, none⟩, ⟨.length, -1, some .kilo⟩, ⟨.time, 0, none⟩, ⟨.time, 0, none⟩]
    (∀ t ∈ a ++ b, t.exponent.IsWhole) ∧ (∀ t ∈ a ++ c, t.exponent.IsWhole) ∧
      matching a b = true ∧ matching c a = false := by
  intro a b c
  obtain ⟨-, -, hcomm, hperm⟩ := matching_symmetric
  have hab : ∀ t ∈ a ++ b, t.exponent.IsWhole := by decide +kernel
  have hac : ∀ t ∈ a ++ c, t.exponent.IsWhole := by decide +kernel
  refine ⟨hab, hac, (hperm a b hab).mpr (by decide +kernel), ?_⟩
  rw [hcomm, ← Bool.not_eq_true, hperm a c hac]
  decide +kernel

/-! ## Matching and counting -/

/-- Once a term has taken what agrees with it, a term of another dimension still hits the same. -/
theorem exists_agrees_rest_iff {a rest : Units} {v t s : Term} (hsplit : a.Perm (v :: rest))
    (hv : v.agrees t = true) (hs : s.dimension ≠ t.dimension) :
    (∃ u ∈ rest, u.agrees s = true) ↔ ∃ u ∈ a, u.agrees s = true := by
  have hmiss : ¬ v.agrees s = true :=
    fun hvs => hs ((agrees_iff.mp hvs).1.symm.trans (agrees_iff.mp hv).1)
  simp only [hsplit.mem_iff, List.mem_cons, exists_eq_or_imp]
  exact (or_iff_right hmiss).symm

/-- Where no dimension stands twice on the right, a count of hits is a matching: what one term
takes is of its dimension, and so it is no hit for another. -/
theorem matching_eq_sameDimensions {a b : Units} (hb : (b.map Term.dimension).Nodup) :
    matching a b = sameDimensions a b := by
  rw [Bool.eq_iff_iff, sameDimensions_iff_forall]
  induction b generalizing a with
  | nil => simp [matching]
  | cons t ts ih =>
    rw [List.map_cons, List.nodup_cons] at hb
    rw [matching, List.forall_mem_cons, List.length_cons]
    cases hrest : without? t a with
    | none =>
      rw [without?_eq_none_iff] at hrest
      refine iff_of_false Bool.false_ne_true ?_
      rintro ⟨-, ⟨u, hu, hut⟩, -⟩
      rw [hrest u hu] at hut
      cases hut
    | some rest =>
      obtain ⟨v, hv, hsplit⟩ := exists_perm_of_without? hrest
      have hlength : a.length = rest.length + 1 := hsplit.length_eq
      have hhit : ∀ s ∈ ts, (∃ u ∈ rest, u.agrees s = true) ↔ ∃ u ∈ a, u.agrees s = true := by
        intro s hs
        apply exists_agrees_rest_iff hsplit hv
        intro hdimension
        exact hb.1 (hdimension ▸ List.mem_map_of_mem hs)
      have ht : ∃ u ∈ a, u.agrees t = true := ⟨v, hsplit.mem_iff.mpr List.mem_cons_self, hv⟩
      rw [ih hb.2, forall₂_congr hhit, hlength, Nat.add_right_cancel_iff]
      simp [ht]

/-- So the count of hits is symmetric, where no dimension stands twice on either side. -/
theorem sameDimensions_comm {a b : Units} (ha : (a.map Term.dimension).Nodup)
    (hb : (b.map Term.dimension).Nodup) : sameDimensions a b = sameDimensions b a := by
  rw [← matching_eq_sameDimensions hb, matching_comm, matching_eq_sameDimensions ha]

end Units

end Metrology
