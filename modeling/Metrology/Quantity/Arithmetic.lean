import Metrology.Binary64.Power
import Metrology.Quantity.Basic

/-!
# Metrology.Quantity.Arithmetic -- operations on quantities

The right operand of an operation is a quantity, a bare number, or something else that is only
described. Sums need the same units on both sides and take no bare number; products combine the
units, and take a bare number only where the left operand's options allow it. A power takes a bare
number as exponent. The result has the options of the left operand, or of the right one where the
left is a bare number.

Comparisons never fail: with other units, or with anything but a quantity, nothing is less, equal
or greater.
-/

namespace Metrology

/-- The right operand of an operation. -/
inductive Operand where
  | quantity (q : Quantity)
  | scalar (x : Binary64)
  | unsupported (description : String)
deriving DecidableEq

/-- A complex number, which no operation takes. -/
def Operand.complex : Operand := .unsupported "complex number"

/-- The operations with two operands. -/
inductive Operation where
  | add
  | sub
  | mul
  | div
  | floorDiv
  | pow
  | mod
  | divmod
deriving DecidableEq

/-- The operations that a bare number on the left has. -/
inductive ScalarOperation where
  | add
  | sub
  | mul
  | div
deriving DecidableEq

/-- The functions of one quantity. -/
inductive UnaryFunction where
  | neg
  | pos
  | abs
  | trunc
  | floor
  | ceil
  /-- Rounding to a count of decimal places, which may be negative. -/
  | round (places : Int)
deriving DecidableEq

/-- A number rounded to decimal places by way of a power of ten, a tie going to the even digit. -/
def Binary64.roundPlaces (x : Binary64) (places : Int) : Binary64 :=
  let factor := Binary64.pow 10 (ofInt places)
  (x * factor).roundEven / factor

/-- The function on values. -/
def UnaryFunction.onValue : UnaryFunction → Binary64 → Binary64
  | neg, x => -x
  | pos, x => x
  | abs, x => x.abs
  | trunc, x => x.trunc
  | floor, x => x.floor
  | ceil, x => x.ceil
  | round places, x => x.roundPlaces places

/-- The answers to all comparisons of two operands. -/
structure Comparison where
  less : Bool
  lessEqual : Bool
  equal : Bool
  unequal : Bool
  greater : Bool
  greaterEqual : Bool
deriving DecidableEq

namespace Quantity

/-! ## Sums and products -/

/-- A sum or difference, by `f` on the values. -/
def additive (f : Binary64 → Binary64 → Binary64) (q : Quantity) : Operand → Except Error Quantity
  | .unsupported description => .error (.unsupported (.operand description))
  | .scalar _ => .error (.dimensionless .summand)
  | .quantity r =>
    if q.hasSameUnits r then .ok (q.withValue (f q.value r.value))
    else .error (.mismatch (.summands q.units r.units))

/-- A product or quotient, by `f` on the values and with `sign` times the right units. -/
def multiplicative (f : Binary64 → Binary64 → Binary64) (sign : Int) (q : Quantity) :
    Operand → Except Error Quantity
  | .unsupported description => .error (.unsupported (.operand description))
  | .scalar x =>
    if q.options.implicitDimensionless then .ok (q.withValue (f q.value x))
    else .error (.dimensionless .factor)
  | .quantity r =>
    .ok (ofUnits (f q.value r.value) (q.units.combine r.units sign).tidy q.options)

/-- A power with a bare number as exponent. -/
def power (q : Quantity) : Operand → Except Error Quantity
  | .quantity _ => .error (.unsupported .exponentWithUnits)
  | .unsupported description => .error (.unsupported (.exponent description))
  | .scalar x => .ok (ofUnits (q.value.pow x) (q.units.scale x).tidy q.options)

/-- An operation with a quantity on the left. -/
def operate (q : Quantity) (op : Operation) (operand : Operand) : Except Error Quantity :=
  match op with
  | .add => q.additive (· + ·) operand
  | .sub => q.additive (· - ·) operand
  | .mul => q.multiplicative (· * ·) 1 operand
  | .div => q.multiplicative (· / ·) (-1) operand
  | .floorDiv => q.multiplicative (fun a b => (a / b).floor) (-1) operand
  | .pow => q.power operand
  | .mod => .error (.unsupported .modulo)
  | .divmod => .error (.unsupported .divmod)

/-! ## Functions of one quantity -/

/-- A function of a quantity. The sign `+` gives the quantity itself. -/
def unary (q : Quantity) : UnaryFunction → Quantity
  | .pos => q
  | f => q.withValue (f.onValue q.value)

/-! ## A bare number on the left -/

/-- A bare number divided by a quantity. -/
def scalarDiv (x : Binary64) (q : Quantity) : Except Error Quantity :=
  if q.options.implicitDimensionless then
    .ok (ofUnits (x / q.value) (q.units.scale (-1.0)).tidy q.options)
  else
    .error (.dimensionless .dividend)

/-- An operation with a bare number on the left. A sum or product is taken from the right, a
difference as the sum with the negated quantity. -/
def scalarOperate (q : Quantity) (x : Binary64) (op : ScalarOperation) : Except Error Quantity :=
  match op with
  | .add => q.operate .add (.scalar x)
  | .sub => (q.unary .neg).operate .add (.scalar x)
  | .mul => q.operate .mul (.scalar x)
  | .div => scalarDiv x q

/-! ## Comparing -/

/-- A comparison of the values of quantities with the same units; false of all else. -/
def comparedBy (r : Binary64 → Binary64 → Bool) (q : Quantity) : Operand → Bool
  | .quantity other => q.hasSameUnits other && r q.value other.value
  | _ => false

def less (q : Quantity) (operand : Operand) : Bool := q.comparedBy Binary64.less operand

def lessEqual (q : Quantity) (operand : Operand) : Bool := q.comparedBy Binary64.lessEqual operand

def equals (q : Quantity) (operand : Operand) : Bool := q.comparedBy Binary64.equals operand

/-- Greater is less, read from the operand. -/
def greater (q : Quantity) : Operand → Bool
  | .quantity other => other.less (.quantity q)
  | _ => false

def greaterEqual (q : Quantity) : Operand → Bool
  | .quantity other => other.lessEqual (.quantity q)
  | _ => false

def compare (q : Quantity) (operand : Operand) : Comparison where
  less := q.less operand
  lessEqual := q.lessEqual operand
  equal := q.equals operand
  unequal := !q.equals operand
  greater := q.greater operand
  greaterEqual := q.greaterEqual operand

/-- A bare number on the left compares with a quantity as something that only differs from it. -/
def scalarCompare : Comparison := ⟨false, false, false, true, false, false⟩

/-! ## As a number -/

/-- Whether the value is not zero; NaN is not. -/
def isNonzero (q : Quantity) : Bool := !q.value.equals 0

/-- The whole part of the value. -/
def toInt (q : Quantity) : Int := q.value.toInt

end Quantity

end Metrology
