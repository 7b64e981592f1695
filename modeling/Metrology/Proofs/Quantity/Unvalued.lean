import Mathlib
import Metrology.Proofs.Family
import Metrology.Proofs.Result
import Metrology.Quantity.Arithmetic

/-!
# Metrology.Proofs.Quantity.Unvalued -- quantities without their values

What a quantity is beside its value are its units and its options (`unvalued_eq_iff`). These alone
decide what an operation comes to beside the value of its result: whether it fails, with which
error, and the units and options of what it gives (`through_operate_unvalued`). Of a bare number
even that it is one suffices, with one exception. The exponent of a power scales the units, so it is
no value that could be left out.

In what follows a value that is left out has a zero in its place. The values of results are then
not those of the operation, so results are compared with their own values left out.
-/

namespace Metrology

open Result (through)

/-- The quantity with its value left out. -/
def Quantity.unvalued (q : Quantity) : Quantity := { q with value := 0 }

/-- The operand with its value left out. A bare number stays when it is an exponent. -/
def Operand.unvalued (isExponent : Bool) : Operand → Operand
  | .quantity q => .quantity q.unvalued
  | .scalar x => .scalar (if isExponent then x else 0)
  | .unsupported description => .unsupported description

namespace Quantity

@[simp] theorem units_unvalued (q : Quantity) : q.unvalued.units = q.units := rfl

@[simp] theorem options_unvalued (q : Quantity) : q.unvalued.options = q.options := rfl

@[simp] theorem unvalued_ofUnits (value : Binary64) (units : Units) (options : Options) :
    (ofUnits value units options).unvalued = ofUnits 0 units options := rfl

/-- Quantities are the same without their values when they agree in the units and the options. -/
theorem unvalued_eq_iff {q r : Quantity} :
    q.unvalued = r.unvalued ↔ q.units = r.units ∧ q.options = r.options := by
  rw [unvalued, unvalued, mk.injEq]
  exact and_iff_right rfl

/-! ## Operations -/

theorem through_additive_unvalued (f : Binary64 → Binary64 → Binary64) (q : Quantity)
    (operand : Operand) :
    through id unvalued (q.additive f operand) =
      through id unvalued (q.unvalued.additive f (operand.unvalued false)) := by
  cases operand with
  | unsupported description => rfl
  | scalar x => rfl
  | quantity r =>
    -- The units are tested, and they are the same ones.
    show through id unvalued (if q.hasSameUnits r then _ else _) =
      through id unvalued (if q.hasSameUnits r then _ else _)
    split <;> rfl

theorem through_multiplicative_unvalued (f : Binary64 → Binary64 → Binary64) (sign : Int)
    (q : Quantity) (operand : Operand) :
    through id unvalued (q.multiplicative f sign operand) =
      through id unvalued (q.unvalued.multiplicative f sign (operand.unvalued false)) := by
  cases operand with
  | unsupported description => rfl
  | scalar x =>
    show through id unvalued (if q.options.implicitDimensionless then _ else _) =
      through id unvalued (if q.options.implicitDimensionless then _ else _)
    split <;> rfl
  | quantity r => rfl

theorem through_power_unvalued (q : Quantity) (operand : Operand) :
    through id unvalued (q.power operand) =
      through id unvalued (q.unvalued.power (operand.unvalued true)) := by
  cases operand with
  | quantity r => rfl
  | unsupported description => rfl
  | scalar x =>
    -- The two powers are not compared, since the values are left out before.
    show Except.ok (ofUnits (q.value.pow x) _ _).unvalued = .ok (ofUnits _ _ _).unvalued
    rw [unvalued_ofUnits, unvalued_ofUnits]
    rfl

/-- Without the value of its result, an operation comes to what it comes to without the values of
its operands. -/
theorem through_operate_unvalued (q : Quantity) (op : Operation) (operand : Operand) :
    through id unvalued (q.operate op operand) =
      through id unvalued (q.unvalued.operate op (operand.unvalued (op = .pow))) := by
  cases op with
  | add => exact through_additive_unvalued _ q operand
  | sub => exact through_additive_unvalued _ q operand
  | mul => exact through_multiplicative_unvalued _ 1 q operand
  | div => exact through_multiplicative_unvalued _ (-1) q operand
  | floorDiv => exact through_multiplicative_unvalued (fun a b => (a / b).floor) (-1) q operand
  | pow => exact through_power_unvalued q operand
  | mod => rfl
  | divmod => rfl

theorem unvalued_unary (q : Quantity) (f : UnaryFunction) :
    (q.unary f).unvalued = (q.unvalued.unary f).unvalued := by
  cases f <;> rfl

theorem through_scalarOperate_unvalued (q : Quantity) (x : Binary64) (op : ScalarOperation) :
    through id unvalued (q.scalarOperate x op) =
      through id unvalued (q.unvalued.scalarOperate 0 op) := by
  cases op with
  | add => rfl
  | sub => rfl
  | mul => exact through_operate_unvalued q .mul (.scalar x)
  | div =>
    show through id unvalued (if q.options.implicitDimensionless then _ else _) =
      through id unvalued (if q.options.implicitDimensionless then _ else _)
    split <;> rfl

/-! ## Families -/

/-- Which value is given in a unit of a family has no part in the units of the quantity, and none in
whether there is one. -/
theorem through_ofFamily_unvalued (chart : Chart) (value value' : Binary64) (unit : String)
    (options : Options) :
    through id unvalued (ofFamily chart value unit options) =
      through id unvalued (ofFamily chart value' unit options) := by
  have hstandard : through id (fun _ => ()) (chart.toStandard value unit) =
      through id (fun _ => ()) (chart.toStandard value' unit) :=
    Chart.through_convert value value'
  unfold ofFamily
  obtain ⟨e, hx, hy⟩ | ⟨x, y, hx, hy, -⟩ := Result.through_id_eq_iff.mp hstandard
  · rw [hx, hy]
  · rw [hx, hy]
    unfold ofText
    cases Symbols.builtin.parse chart.family.standardExpression <;> rfl

/-- Whether a value can be read off in a unit of a family is not a matter of the value. -/
theorem through_valueIn_unvalued (q : Quantity) (chart : Chart) (unit : String) :
    through id (fun _ => ()) (q.valueIn chart unit) =
      through id (fun _ => ()) (q.unvalued.valueIn chart unit) := by
  have hvalue : through id (fun _ => ()) (chart.ofStandard q.value unit) =
      through id (fun _ => ()) (chart.ofStandard q.unvalued.value unit) :=
    Chart.through_convert q.value q.unvalued.value
  unfold valueIn
  cases Units.parse chart.family.standardExpression with
  | error e => rfl
  | ok expected =>
    show through id _ (if q.units.sameDimensions expected.normalize then _ else _) =
      through id _ (if q.units.sameDimensions expected.normalize then _ else _)
    split
    · obtain ⟨e, hx, hy⟩ | ⟨x, y, hx, hy, -⟩ := Result.through_id_eq_iff.mp hvalue
      · rw [hx, hy]
      · rw [hx, hy]
        rfl
    · rfl

end Quantity

end Metrology
