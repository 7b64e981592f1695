import Mathlib
import Metrology.Units.Basic

/-!
# Metrology.Proofs.Units.Unprefixed -- units without their prefixes

`unprefixed` drops the prefixes of terms. What is left of units is the list of their dimensions with
the exponents (`unprefixed_eq_iff`), and this is all that the algebra of units works with: every
operation on units commutes with dropping the prefixes, and comparing them gives the same answer
before and after. An operation picks prefixes (the first of a dimension, those of the left operand),
but no choice that it makes depends on one.
-/

namespace Metrology

namespace Term

/-- The term without its prefix. -/
def unprefixed (t : Term) : Term := { t with siPrefix := none }

variable (t u : Term)

@[simp] theorem dimension_unprefixed : t.unprefixed.dimension = t.dimension := rfl

@[simp] theorem exponent_unprefixed : t.unprefixed.exponent = t.exponent := rfl

@[simp] theorem unprefixed_marker : marker.unprefixed = marker := rfl

@[simp] theorem isReciprocal_unprefixed : t.unprefixed.isReciprocal = t.isReciprocal := rfl

@[simp] theorem vanishes_unprefixed : t.unprefixed.vanishes = t.vanishes := rfl

@[simp] theorem inNumerator_unprefixed : t.unprefixed.inNumerator = t.inNumerator := rfl

@[simp] theorem isPresent_unprefixed : t.unprefixed.isPresent = t.isPresent := rfl

@[simp] theorem agrees_unprefixed_left : t.unprefixed.agrees u = t.agrees u := rfl

@[simp] theorem agrees_unprefixed_right : t.agrees u.unprefixed = t.agrees u := rfl

end Term

namespace Units

/-- The units without their prefixes. -/
def unprefixed (units : Units) : Units := units.map Term.unprefixed

variable (units : Units)

@[simp] theorem unprefixed_cons (t : Term) :
    unprefixed (t :: units) = t.unprefixed :: unprefixed units :=
  rfl

@[simp] theorem unprefixed_unprefixed : unprefixed (unprefixed units) = unprefixed units :=
  List.map_map

@[simp] theorem unprefixed_append (a b : Units) :
    unprefixed (a ++ b) = unprefixed a ++ unprefixed b :=
  List.map_append

/-- Units are the same without their prefixes when they list the same dimensions with the same
exponents. -/
theorem unprefixed_eq_iff {a b : Units} :
    a.unprefixed = b.unprefixed ↔
      a.map (fun t => (t.dimension, t.exponent)) = b.map fun t => (t.dimension, t.exponent) := by
  let unpaired (p : Dimension × Binary64) : Term := ⟨p.1, p.2, none⟩
  have hunpaired : unpaired.Injective := fun p q h => by
    cases p
    cases q
    cases h
    rfl
  have hmap : ∀ units : Units,
      unprefixed units = (units.map fun t => (t.dimension, t.exponent)).map unpaired := by
    intro units
    rw [List.map_map]
    rfl
  rw [hmap, hmap, (List.map_injective_iff.mpr hunpaired).eq_iff]

theorem unprefixed_map {f g : Term → Term} (h : ∀ t, (f t).unprefixed = g t.unprefixed) :
    unprefixed (units.map f) = (unprefixed units).map g := by
  rw [unprefixed, unprefixed, List.map_map, List.map_map]
  exact List.map_congr_left fun t _ => h t

/-- A test that prefixes have no part in keeps the same terms without them. -/
theorem unprefixed_filter {p : Term → Bool} (hp : ∀ t, p t.unprefixed = p t) :
    unprefixed (units.filter p) = (unprefixed units).filter p := by
  rw [unprefixed, unprefixed, List.filter_map]
  congr 1
  exact List.filter_congr fun t _ => (hp t).symm

theorem any_unprefixed {p : Term → Bool} (hp : ∀ t, p t.unprefixed = p t) :
    (unprefixed units).any p = units.any p := by
  rw [unprefixed, List.any_map]
  congr 1
  exact funext hp

/-! ## Looking up -/

@[simp] theorem mentions_unprefixed (d : Dimension) :
    (unprefixed units).mentions d = units.mentions d :=
  any_unprefixed units fun _ => rfl

@[simp] theorem exponentOf_unprefixed (d : Dimension) :
    (unprefixed units).exponentOf d = units.exponentOf d :=
  List.foldl_map

/-! ## Combining -/

theorem unprefixed_absorb (t : Term) :
    unprefixed (absorb units t) = absorb (unprefixed units) t.unprefixed := by
  induction units with
  | nil => rfl
  | cons u us ih =>
    by_cases h : u.dimension = t.dimension
    · simp [absorb, h, Term.unprefixed]
    · simp [absorb, h, ih]

theorem unprefixed_collect : unprefixed (collect units) = collect (unprefixed units) := by
  have hfold : ∀ gathered : Units, unprefixed (units.foldl absorb gathered) =
      (unprefixed units).foldl absorb (unprefixed gathered) := by
    induction units with
    | nil => intro gathered; rfl
    | cons t ts ih =>
      intro gathered
      rw [unprefixed_cons, List.foldl_cons, List.foldl_cons, ih, unprefixed_absorb]
  exact hfold []

theorem unprefixed_combine (a b : Units) (sign : Int) :
    unprefixed (combine a b sign) = combine (unprefixed a) (unprefixed b) sign := by
  simp only [combine, unprefixed_append, ← unprefixed_collect, exponentOf_unprefixed,
    mentions_unprefixed]
  -- The terms of the first, then those of the second whose dimensions the first does not have.
  congr 1
  · exact unprefixed_map _ fun _ => rfl
  · rw [← unprefixed_filter (collect b) fun _ => rfl]
    exact unprefixed_map _ fun _ => rfl

theorem unprefixed_scale (factor : Binary64) :
    unprefixed (scale units factor) = scale (unprefixed units) factor :=
  unprefixed_map units fun _ => rfl

/-! ## Normal form -/

theorem unprefixed_tidyMarked : unprefixed (tidyMarked units) = tidyMarked (unprefixed units) := by
  induction units with
  | nil => rfl
  | cons t ts ih =>
    rw [unprefixed_cons, tidyMarked, tidyMarked, Term.isReciprocal_unprefixed,
      Term.vanishes_unprefixed]
    split
    · rw [unprefixed_cons, Term.unprefixed_marker,
        unprefixed_filter ts Term.isPresent_unprefixed]
    · split
      · exact ih
      · rw [unprefixed_cons, ih]

theorem unprefixed_tidy : unprefixed (tidy units) = tidy (unprefixed units) := by
  rw [tidy, tidy, any_unprefixed units Term.inNumerator_unprefixed]
  split
  · exact unprefixed_filter units Term.isPresent_unprefixed
  · exact unprefixed_tidyMarked units

theorem unprefixed_normalize : unprefixed (normalize units) = normalize (unprefixed units) := by
  rw [normalize, normalize, unprefixed_tidy, unprefixed_collect]

/-! ## Comparing -/

@[simp] theorem sameDimensions_unprefixed_left (a b : Units) :
    sameDimensions (unprefixed a) b = sameDimensions a b := by
  simp only [sameDimensions, unprefixed, List.length_map, List.any_map, Function.comp_def,
    Term.agrees_unprefixed_left]

@[simp] theorem sameDimensions_unprefixed_right (a b : Units) :
    sameDimensions a (unprefixed b) = sameDimensions a b := by
  simp only [sameDimensions, unprefixed, List.length_map, List.countP_map, Function.comp_def,
    Term.agrees_unprefixed_right]

end Units

end Metrology
