import Mathlib
import Metrology.Proofs.Quantity.Normal
import Metrology.Proofs.Units.SameDimensions

/-!
# Metrology.Proofs.Quantity.Vector -- arithmetic of quantities on exponent vectors

`q.HasOrders v` says that the exponents of the base dimensions in `q` are the whole numbers that the
vector `v` gives. Normal form is part of it: every quantity of a run has that.

Each operation acts on vectors as its name says. A product adds them (`HasOrders.mul`), a quotient
subtracts them (`HasOrders.div`), a power multiplies by the exponent (`HasOrders.pow`), a bare
number divided by a quantity negates (`HasOrders.scalarDiv`), and whatever only changes the value
keeps them (`HasOrders.revalue`). The results have to stay within `2⁵³`, where binary64 is exact
on them. Since quantities with one vector have the same units (`HasOrders.hasSameUnits`), the laws
of vectors are laws of units.
-/

namespace Metrology

namespace Quantity

open Binary64

/-- A vector whose base coordinates binary64 numbers hold exactly, as they do their sums. -/
def Small (v : Dimension → Int) : Prop :=
  ∀ d, d ≠ .reciprocal → (v d).natAbs ≤ 2 ^ 53

/-- The exponents of the base dimensions, which are whole numbers. -/
structure HasOrders (q : Quantity) (v : Dimension → Int) : Prop where
  normal : q.units.Normal
  exponentOf_eq : ∀ d, d ≠ .reciprocal → q.units.exponentOf d = ofInt (v d)
  small : Small v

section

variable {q r : Quantity} {u v : Dimension → Int}

theorem HasOrders.carries (h : q.HasOrders v) {d : Dimension} (hd : d ≠ .reciprocal) :
    q.units.Carries d (v d) :=
  Units.carries_of_exponentOf h.normal.distinct (h.small d hd) (h.exponentOf_eq d hd)

theorem HasOrders.carries_collect (h : q.HasOrders v) {d : Dimension} (hd : d ≠ .reciprocal) :
    (Units.collect q.units).Carries d (v d) := by
  rw [Units.collect_of_nodup h.normal.distinct]
  exact h.carries hd

/-- Normal units in which every base exponent is whole have a vector. -/
theorem hasOrders_order (hnormal : q.units.Normal)
    (hwhole : ∀ t ∈ q.units, t.isReciprocal = false →
      t.exponent.IsWhole ∧ t.exponent.toInt.natAbs ≤ 2 ^ 53) : q.HasOrders q.units.order := by
  have hterm : ∀ t ∈ q.units, t.dimension ≠ .reciprocal →
      t.exponent.IsWhole ∧ t.exponent.toInt.natAbs ≤ 2 ^ 53 := by
    intro t ht hd
    exact hwhole t ht ((Term.isReciprocal_eq_false_iff t).mpr hd)
  refine ⟨hnormal, ?_, ?_⟩
  · intro d hd
    exact (Units.carries_order hnormal.distinct fun t ht htd =>
      (hterm t ht (htd ▸ hd)).1).exponentOf_eq hnormal.distinct
  · intro d hd
    by_cases hmem : d ∈ q.units.map Term.dimension
    · obtain ⟨t, ht, rfl⟩ := List.mem_map.mp hmem
      rw [Units.order_of_mem hnormal.distinct ht]
      exact (hterm t ht hd).2
    · rw [Units.order_of_notMem hmem]
      exact Nat.zero_le _

/-- Quantities with the same vector have the same units. -/
theorem HasOrders.hasSameUnits (hq : q.HasOrders v) (hr : r.HasOrders v) :
    q.hasSameUnits r = true :=
  (Units.sameDimensions_iff_of_normal hq.normal hr.normal (fun _ hd => hq.carries hd)
    (fun _ hd => hr.carries hd)).mpr fun _ _ => rfl

/-! ## Building -/

/-- The second normalization, when a result is built, finds tidy units as they are to be. -/
theorem units_ofUnits_tidy (value : Binary64) {units : Units}
    (hnodup : (units.map Term.dimension).Nodup) (options : Options) :
    (ofUnits value units.tidy options).units = units.tidy :=
  Units.normalize_of_normal (Units.normal_tidy hnodup)

theorem hasOrders_ofUnits_tidy (value : Binary64) {units : Units}
    (hnodup : (units.map Term.dimension).Nodup) (options : Options)
    (hv : ∀ d, d ≠ .reciprocal → units.Carries d (v d)) (hsmall : Small v) :
    (ofUnits value units.tidy options).HasOrders v where
  normal := normal_ofUnits value units.tidy options
  exponentOf_eq := by
    intro d hd
    rw [units_ofUnits_tidy value hnodup options]
    exact ((hv d hd).tidy hd).exponentOf_eq (Units.nodup_tidy hnodup)
  small := hsmall

/-- The value has no part in the vector. -/
theorem HasOrders.revalue (h : q.HasOrders v) (value : Binary64) :
    HasOrders { q with value := value } v where
  normal := h.normal
  exponentOf_eq := h.exponentOf_eq
  small := h.small

/-! ## Operations -/

/-- Combining the units of two quantities adds the right vector, `sign` times, to the left one. -/
theorem HasOrders.combine (hq : q.HasOrders u) (hr : r.HasOrders v) {sign : Int}
    (hsign : sign.natAbs = 1) {w : Dimension → Int} (hw : ∀ d, w d = u d + sign * v d)
    (hsmall : Small w) (value : Binary64) (options : Options) :
    (ofUnits value (q.units.combine r.units sign).tidy options).HasOrders w := by
  refine hasOrders_ofUnits_tidy value (Units.nodup_combine _ _ _) options ?_ hsmall
  intro d hd
  -- The sign is one or minus one, so the product with it is as small as the coordinate.
  have hmul : (sign * v d).natAbs ≤ 2 ^ 53 := by
    rw [Int.natAbs_mul, hsign, Nat.one_mul]
    exact hr.small d hd
  have hsum := hsmall d hd
  rw [hw d] at hsum ⊢
  exact Units.carries_combine (hq.carries_collect hd) (hr.carries_collect hd) (by omega) hmul hsum

theorem HasOrders.mul (hq : q.HasOrders u) (hr : r.HasOrders v) (hsmall : Small (u + v)) :
    ∃ p, q.operate .mul (.quantity r) = .ok p ∧ p.HasOrders (u + v) :=
  ⟨_, rfl, hq.combine hr rfl (fun d => by simp) hsmall _ _⟩

theorem HasOrders.div (hq : q.HasOrders u) (hr : r.HasOrders v) (hsmall : Small (u - v)) :
    ∃ p, q.operate .div (.quantity r) = .ok p ∧ p.HasOrders (u - v) :=
  ⟨_, rfl, hq.combine hr rfl (fun d => by simp [sub_eq_add_neg]) hsmall _ _⟩

theorem HasOrders.floorDiv (hq : q.HasOrders u) (hr : r.HasOrders v) (hsmall : Small (u - v)) :
    ∃ p, q.operate .floorDiv (.quantity r) = .ok p ∧ p.HasOrders (u - v) :=
  ⟨_, rfl, hq.combine hr rfl (fun d => by simp [sub_eq_add_neg]) hsmall _ _⟩

/-- Scaling the units of a quantity multiplies its vector. -/
theorem HasOrders.scale (h : q.HasOrders v) {n : Int} {factor : Binary64}
    (hfactor : factor.Holds n) (hsmall : Small (n • v)) (value : Binary64) (options : Options) :
    (ofUnits value (q.units.scale factor).tidy options).HasOrders (n • v) := by
  have hnodup : ((q.units.scale factor).map Term.dimension).Nodup := by
    rw [Units.map_dimension_scale]
    exact h.normal.distinct
  refine hasOrders_ofUnits_tidy value hnodup options ?_ hsmall
  intro d hd
  have hd' := hsmall d hd
  rw [Pi.smul_apply, smul_eq_mul, Int.mul_comm] at hd' ⊢
  exact (h.carries hd).scale hfactor hd'

theorem HasOrders.pow (h : q.HasOrders v) {n : Int} {x : Binary64} (hx : x.Holds n)
    (hsmall : Small (n • v)) :
    ∃ p, q.operate .pow (.scalar x) = .ok p ∧ p.HasOrders (n • v) :=
  ⟨_, rfl, h.scale hx hsmall _ _⟩

theorem HasOrders.scalarDiv (h : q.HasOrders v) {x : Binary64} {p : Quantity}
    (hp : Quantity.scalarDiv x q = .ok p) : p.HasOrders (-v) := by
  have hminus : (-1.0 : Binary64).Holds (-1) := by decide +kernel
  have hneg : (-1 : Int) • v = -v := by simp
  have hsmall : Small ((-1 : Int) • v) := by
    intro d hd
    rw [hneg, Pi.neg_apply, Int.natAbs_neg]
    exact h.small d hd
  unfold Quantity.scalarDiv at hp
  split at hp
  · cases hp
    rw [← hneg]
    exact h.scale hminus hsmall _ _
  · cases hp

theorem HasOrders.additive (h : q.HasOrders v) {f : Binary64 → Binary64 → Binary64}
    {operand : Operand} {p : Quantity} (hp : q.additive f operand = .ok p) : p.HasOrders v := by
  obtain ⟨r, -, -, rfl⟩ := (additive_eq_ok_iff h.normal).mp hp
  exact h.revalue _

theorem HasOrders.multiplicative_scalar (h : q.HasOrders v)
    {f : Binary64 → Binary64 → Binary64} {sign : Int} {x : Binary64} {p : Quantity}
    (hp : q.multiplicative f sign (.scalar x) = .ok p) : p.HasOrders v := by
  obtain ⟨-, rfl⟩ := (multiplicative_scalar_eq_ok_iff h.normal).mp hp
  exact h.revalue _

theorem HasOrders.unary (h : q.HasOrders v) (f : UnaryFunction) : (q.unary f).HasOrders v := by
  rw [unary_of_normal h.normal]
  exact h.revalue _

/-! ## Laws of units -/

/-- Products in either order have the same units. -/
theorem HasOrders.mul_comm (hq : q.HasOrders u) (hr : r.HasOrders v) (hsmall : Small (u + v)) :
    ∃ p p', q.operate .mul (.quantity r) = .ok p ∧ r.operate .mul (.quantity q) = .ok p' ∧
      p.hasSameUnits p' = true := by
  obtain ⟨p, hp, hpv⟩ := hq.mul hr hsmall
  obtain ⟨p', hp', hpv'⟩ := hr.mul hq (add_comm u v ▸ hsmall)
  exact ⟨p, p', hp, hp', hpv.hasSameUnits (add_comm u v ▸ hpv')⟩

/-- Products of three quantities have the same units however they are grouped. -/
theorem HasOrders.mul_assoc {s : Quantity} {w : Dimension → Int} (hq : q.HasOrders u)
    (hr : r.HasOrders v) (hs : s.HasOrders w) (huv : Small (u + v)) (hvw : Small (v + w))
    (huvw : Small (u + v + w)) :
    ∃ qr rs left right, q.operate .mul (.quantity r) = .ok qr ∧
      r.operate .mul (.quantity s) = .ok rs ∧ qr.operate .mul (.quantity s) = .ok left ∧
      q.operate .mul (.quantity rs) = .ok right ∧ left.hasSameUnits right = true := by
  obtain ⟨qr, hqr, hqrv⟩ := hq.mul hr huv
  obtain ⟨rs, hrs, hrsv⟩ := hr.mul hs hvw
  obtain ⟨left, hleft, hleftv⟩ := hqrv.mul hs huvw
  obtain ⟨right, hright, hrightv⟩ := hq.mul hrsv (add_assoc u v w ▸ huvw)
  exact ⟨qr, rs, left, right, hqr, hrs, hleft, hright,
    hleftv.hasSameUnits (add_assoc u v w ▸ hrightv)⟩

/-- Dividing and multiplying back gives the units there were. -/
theorem HasOrders.div_mul_cancel (hq : q.HasOrders u) (hr : r.HasOrders v)
    (hsmall : Small (u - v)) :
    ∃ p p', q.operate .div (.quantity r) = .ok p ∧ p.operate .mul (.quantity r) = .ok p' ∧
      p'.hasSameUnits q = true := by
  -- The way back ends at the vector it started from, which is small already.
  have hback : u - v + v = u := sub_add_cancel u v
  obtain ⟨p, hp, hpv⟩ := hq.div hr hsmall
  obtain ⟨p', hp', hpv'⟩ := hpv.mul hr (hback.symm ▸ hq.small)
  rw [hback] at hpv'
  exact ⟨p, p', hp, hp', hpv'.hasSameUnits hq⟩

/-- **Unit arithmetic is a homomorphism to exponent vectors.** For quantities with whole exponents,
as long as these and the results stay within `2⁵³`: products add vectors, both kinds of quotient
subtract them, a power multiplies by its exponent and a bare number divided by a quantity negates;
sums, differences, products and quotients with a bare number, and the functions of one quantity
leave the vector as it is. So up to having the same units, multiplication is commutative and
associative, and undoes division. -/
theorem hasOrders_operations {s : Quantity} {w : Dimension → Int} (hq : q.HasOrders u)
    (hr : r.HasOrders v) (hs : s.HasOrders w) :
    (Small (u + v) → ∃ p, q.operate .mul (.quantity r) = .ok p ∧ p.HasOrders (u + v)) ∧
    (Small (u - v) → ∃ p, q.operate .div (.quantity r) = .ok p ∧ p.HasOrders (u - v)) ∧
    (Small (u - v) → ∃ p, q.operate .floorDiv (.quantity r) = .ok p ∧ p.HasOrders (u - v)) ∧
    (∀ n x, Holds x n → Small (n • u) →
      ∃ p, q.operate .pow (.scalar x) = .ok p ∧ p.HasOrders (n • u)) ∧
    (∀ x p, q.scalarOperate x .div = .ok p → p.HasOrders (-u)) ∧
    (∀ operand p, q.operate .add operand = .ok p → p.HasOrders u) ∧
    (∀ operand p, q.operate .sub operand = .ok p → p.HasOrders u) ∧
    (∀ op ∈ [Operation.mul, .div, .floorDiv], ∀ x p,
      q.operate op (.scalar x) = .ok p → p.HasOrders u) ∧
    (∀ x p, q.scalarOperate x .mul = .ok p → p.HasOrders u) ∧
    (∀ f, (q.unary f).HasOrders u) ∧
    (Small (u + v) → ∃ p p', q.operate .mul (.quantity r) = .ok p ∧
      r.operate .mul (.quantity q) = .ok p' ∧ p.hasSameUnits p' = true) ∧
    (Small (u + v) → Small (v + w) → Small (u + v + w) →
      ∃ qr rs left right, q.operate .mul (.quantity r) = .ok qr ∧
        r.operate .mul (.quantity s) = .ok rs ∧ qr.operate .mul (.quantity s) = .ok left ∧
        q.operate .mul (.quantity rs) = .ok right ∧ left.hasSameUnits right = true) ∧
    (Small (u - v) → ∃ p p', q.operate .div (.quantity r) = .ok p ∧
      p.operate .mul (.quantity r) = .ok p' ∧ p'.hasSameUnits q = true) := by
  refine ⟨hq.mul hr, hq.div hr, hq.floorDiv hr, fun n x hx hsmall => hq.pow hx hsmall, ?_, ?_, ?_,
    ?_, ?_, hq.unary, hq.mul_comm hr, hq.mul_assoc hr hs, hq.div_mul_cancel hr⟩
  · intro x p hp
    exact hq.scalarDiv hp
  · intro operand p hp
    exact hq.additive (show q.additive (· + ·) operand = .ok p from hp)
  · intro operand p hp
    exact hq.additive (show q.additive (· - ·) operand = .ok p from hp)
  · intro op hop x p hp
    simp only [List.mem_cons, List.not_mem_nil, or_false] at hop
    rcases hop with rfl | rfl | rfl
    · exact hq.multiplicative_scalar (show q.multiplicative (· * ·) 1 (.scalar x) = .ok p from hp)
    · exact hq.multiplicative_scalar
        (show q.multiplicative (· / ·) (-1) (.scalar x) = .ok p from hp)
    · exact hq.multiplicative_scalar
        (show q.multiplicative (fun a b => (a / b).floor) (-1) (.scalar x) = .ok p from hp)
  · intro x p hp
    exact hq.multiplicative_scalar (show q.multiplicative (· * ·) 1 (.scalar x) = .ok p from hp)

/-- A mass and a speed: their product is a momentum, and what the laws say of them holds. -/
theorem hasOrders_operations_momentum :
    let options : Options := { implicitDimensionless := true }
    let mass : Quantity := ofUnits 2 [⟨.mass, 1, some .kilo⟩] options
    let speed : Quantity := ofUnits 3 [⟨.length, 1, none⟩, ⟨.time, -1, none⟩] options
    let m := mass.units.order
    let v := speed.units.order
    mass.HasOrders m ∧ speed.HasOrders v ∧
      (∃ p, mass.operate .mul (.quantity speed) = .ok p ∧ p.HasOrders (m + v)) ∧
      (∃ p, speed.operate .pow (.scalar (-2)) = .ok p ∧ p.HasOrders ((-2 : Int) • v)) ∧
      (∃ p, speed.scalarOperate 1 .div = .ok p ∧ p.HasOrders (-v)) ∧
      ∃ p p', mass.operate .div (.quantity speed) = .ok p ∧
        p.operate .mul (.quantity speed) = .ok p' ∧ p'.hasSameUnits mass = true := by
  intro options mass speed m v
  have hm : mass.HasOrders m := hasOrders_order (normal_ofUnits _ _ _) (by decide +kernel)
  have hv : speed.HasOrders v := hasOrders_order (normal_ofUnits _ _ _) (by decide +kernel)
  have hsmall : ∀ d ∈ Dimension.all, ((m + v) d).natAbs ≤ 2 ^ 53 ∧ ((m - v) d).natAbs ≤ 2 ^ 53 ∧
      (((-2 : Int) • v) d).natAbs ≤ 2 ^ 53 := by
    decide +kernel
  obtain ⟨hmul, _, _, _, _, _, _, _, _, _, _, _, hcancel⟩ := hasOrders_operations hm hv hv
  obtain ⟨_, _, _, hpow, hscalar, _⟩ := hasOrders_operations hv hm hm
  refine ⟨hm, hv, hmul fun d _ => (hsmall d d.mem_all).1, ?_, ?_, ?_⟩
  · exact hpow (-2) (-2) (by decide +kernel) fun d _ => (hsmall d d.mem_all).2.2
  · exact ⟨_, rfl, hscalar 1 _ rfl⟩
  · exact hcancel fun d _ => (hsmall d d.mem_all).2.1

end

end Quantity

end Metrology
