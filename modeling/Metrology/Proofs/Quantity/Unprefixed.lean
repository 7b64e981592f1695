import Mathlib
import Metrology.Proofs.Result
import Metrology.Proofs.Units.Unprefixed
import Metrology.Quantity.Arithmetic

/-!
# Metrology.Proofs.Quantity.Unprefixed -- quantities without their prefixes

A quantity without its prefixes has the same value, the same options, and the same dimensions with
the same exponents. Operations commute with dropping prefixes: what is seen of a result through
`unprefixed` is the result for the operands without prefixes (`through_operate`), errors included,
which keep their kind and lose the prefixes of the units they speak of. Comparisons, and values read
off in units of a family, do not notice at all (`compare_unprefixed`, `through_valueIn`).
-/

namespace Metrology

open Result (through)

/-- The error without the prefixes of the units in it. -/
def MismatchError.unprefixed : MismatchError → MismatchError
  | .summands left right => .summands left.unprefixed right.unprefixed
  | .family units name expression => .family units.unprefixed name expression

def Error.unprefixed : Error → Error
  | .mismatch cause => .mismatch cause.unprefixed
  | e => e

/-- The quantity without the prefixes of its units. -/
def Quantity.unprefixed {α : Type} (q : Quantity α) : Quantity α :=
  { q with units := q.units.unprefixed }

def Operand.unprefixed : Operand → Operand
  | .quantity q => .quantity q.unprefixed
  | operand => operand

namespace Quantity

section

variable {α : Type}

@[simp] theorem value_unprefixed (q : Quantity α) : q.unprefixed.value = q.value := rfl

@[simp] theorem units_unprefixed (q : Quantity α) : q.unprefixed.units = q.units.unprefixed := rfl

@[simp] theorem options_unprefixed (q : Quantity α) : q.unprefixed.options = q.options := rfl

/-- Quantities are the same without their prefixes when they agree in the value, the options and the
list of dimensions with exponents. -/
theorem unprefixed_eq_iff {q r : Quantity α} :
    q.unprefixed = r.unprefixed ↔
      q.value = r.value ∧ q.options = r.options ∧
        q.units.map (fun t => (t.dimension, t.exponent)) =
          r.units.map fun t => (t.dimension, t.exponent) := by
  rw [← Units.unprefixed_eq_iff, unprefixed, unprefixed, mk.injEq]
  exact and_congr_right fun _ => and_comm

@[simp] theorem unprefixed_ofUnits (value : α) (units : Units) (options : Options) :
    (ofUnits value units options).unprefixed = ofUnits value units.unprefixed options := by
  simp only [ofUnits, unprefixed, Units.unprefixed_normalize]

@[simp] theorem unprefixed_withValue (q : Quantity α) (value : α) :
    (q.withValue value).unprefixed = q.unprefixed.withValue value :=
  unprefixed_ofUnits value q.units q.options

theorem unprefixed_withOptions (q : Quantity α) (mode : Option DisplayMode)
    (implicit : Option Bool) :
    (q.withOptions mode implicit).unprefixed = q.unprefixed.withOptions mode implicit :=
  rfl

@[simp] theorem hasSameUnits_unprefixed {β : Type} (q : Quantity α) (r : Quantity β) :
    q.unprefixed.hasSameUnits r.unprefixed = q.hasSameUnits r := by
  simp [hasSameUnits]

/-- What is read off in a unit of a family is the same number, or the same error. -/
theorem through_valueIn [Mul α] [Div α] (q : Quantity α) (chart : Chart α) (unit : String) :
    through Error.unprefixed id (q.valueIn chart unit) = q.unprefixed.valueIn chart unit := by
  unfold valueIn
  cases Units.parse chart.family.standardExpression with
  | error e => rfl
  | ok expected =>
    simp only [value_unprefixed, units_unprefixed, Units.sameDimensions_unprefixed_left]
    split
    · cases chart.ofStandard q.value unit <;> rfl
    · rfl

end

/-! ## Operations -/

theorem through_additive (f : Binary64 → Binary64 → Binary64) (q : Quantity) (operand : Operand) :
    through Error.unprefixed unprefixed (q.additive f operand) =
      q.unprefixed.additive f operand.unprefixed := by
  cases operand with
  | unsupported description => rfl
  | scalar x => rfl
  | quantity r =>
    simp only [additive, Operand.unprefixed, hasSameUnits_unprefixed]
    split
    · simp
    · rfl

theorem through_multiplicative (f : Binary64 → Binary64 → Binary64) (sign : Int) (q : Quantity)
    (operand : Operand) :
    through Error.unprefixed unprefixed (q.multiplicative f sign operand) =
      q.unprefixed.multiplicative f sign operand.unprefixed := by
  cases operand with
  | unsupported description => rfl
  | scalar x =>
    by_cases h : q.options.implicitDimensionless = true
    · simp [multiplicative, Operand.unprefixed, h]
    · simp [multiplicative, Operand.unprefixed, h, Error.unprefixed]
  | quantity r =>
    simp [multiplicative, Operand.unprefixed, Units.unprefixed_tidy, Units.unprefixed_combine]

theorem through_power (q : Quantity) (operand : Operand) :
    through Error.unprefixed unprefixed (q.power operand) =
      q.unprefixed.power operand.unprefixed := by
  cases operand with
  | quantity r => rfl
  | unsupported description => rfl
  | scalar x => simp [power, Operand.unprefixed, Units.unprefixed_tidy, Units.unprefixed_scale]

/-- An operation gives the same result without prefixes as with them, up to the prefixes. -/
theorem through_operate (q : Quantity) (op : Operation) (operand : Operand) :
    through Error.unprefixed unprefixed (q.operate op operand) =
      q.unprefixed.operate op operand.unprefixed := by
  cases op with
  | add => exact through_additive _ q operand
  | sub => exact through_additive _ q operand
  | mul => exact through_multiplicative _ 1 q operand
  | div => exact through_multiplicative _ (-1) q operand
  | floorDiv => exact through_multiplicative (fun a b => (a / b).floor) (-1) q operand
  | pow => exact through_power q operand
  | mod => rfl
  | divmod => rfl

theorem unprefixed_unary (q : Quantity) (f : UnaryFunction) :
    (q.unary f).unprefixed = q.unprefixed.unary f := by
  cases f with
  | pos => rfl
  | _ => exact unprefixed_withValue q _

theorem through_scalarOperate (q : Quantity) (x : Binary64) (op : ScalarOperation) :
    through Error.unprefixed unprefixed (q.scalarOperate x op) =
      q.unprefixed.scalarOperate x op := by
  cases op with
  | add => exact through_operate q .add (.scalar x)
  | sub =>
    simp only [scalarOperate, ← unprefixed_unary]
    exact through_operate (q.unary .neg) .add (.scalar x)
  | mul => exact through_operate q .mul (.scalar x)
  | div =>
    by_cases h : q.options.implicitDimensionless = true
    · simp [scalarOperate, scalarDiv, h, Units.unprefixed_tidy, Units.unprefixed_scale]
    · simp [scalarOperate, scalarDiv, h, Error.unprefixed]

/-! ## Comparing -/

theorem comparedBy_unprefixed (r : Binary64 → Binary64 → Bool) (q : Quantity) (operand : Operand) :
    q.unprefixed.comparedBy r operand.unprefixed = q.comparedBy r operand := by
  cases operand with
  | quantity other => simp [comparedBy, Operand.unprefixed]
  | scalar x => rfl
  | unsupported description => rfl

/-- Quantities compare the same without their prefixes. -/
theorem compare_unprefixed (q : Quantity) (operand : Operand) :
    q.unprefixed.compare operand.unprefixed = q.compare operand := by
  have hless := comparedBy_unprefixed Binary64.less q operand
  have hlessEqual := comparedBy_unprefixed Binary64.lessEqual q operand
  have hequals := comparedBy_unprefixed Binary64.equals q operand
  -- Greater is less with the operands exchanged, so it comes down to the same test.
  have hgreater : q.unprefixed.greater operand.unprefixed = q.greater operand := by
    cases operand with
    | quantity other => exact comparedBy_unprefixed Binary64.less other (.quantity q)
    | scalar x => rfl
    | unsupported description => rfl
  have hgreaterEqual : q.unprefixed.greaterEqual operand.unprefixed = q.greaterEqual operand := by
    cases operand with
    | quantity other => exact comparedBy_unprefixed Binary64.lessEqual other (.quantity q)
    | scalar x => rfl
    | unsupported description => rfl
  simp only [compare, less, lessEqual, equals, hless, hlessEqual, hequals, hgreater, hgreaterEqual]

end Quantity

end Metrology
