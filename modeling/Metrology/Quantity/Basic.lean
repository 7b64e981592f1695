import Metrology.Expression
import Metrology.Registry

/-!
# Metrology.Quantity.Basic -- values with units

A quantity is a value, units in normal form, and options: the notation its units are written in,
and whether bare numbers may take part in its products without being declared dimensionless. Every
quantity is built by `ofUnits`, which normalizes the units it is given.

A quantity is built from a value in a unit of a family through the family's standard unit, and read
off in a unit of a family only when its units are those of the family's standard expression.
-/

namespace Metrology

/-- How the units of a quantity are written. -/
inductive DisplayMode where
  | fractional
  | exponential
deriving DecidableEq, Inhabited

namespace DisplayMode

def name : DisplayMode → String
  | fractional => "fractional"
  | exponential => "exponential"

/-- Reads the name of a mode or one of its short forms, in any case. -/
def parse (text : String) : Except SettingsError DisplayMode :=
  let word := Text.lower text
  if word = "fractional" ∨ word = "frac" ∨ word = "fraction" then .ok .fractional
  else if word = "exponential" ∨ word = "exp" ∨ word = "exponent" then .ok .exponential
  else .error (.unknownDisplayMode text)

end DisplayMode

/-- What a quantity carries besides its value and units. -/
structure Quantity.Options where
  mode : DisplayMode := .fractional
  implicitDimensionless : Bool := false
deriving DecidableEq, Inhabited

/-- A value with units. -/
structure Quantity (α : Type := Binary64) where
  value : α
  units : Units
  options : Quantity.Options
deriving DecidableEq

namespace Quantity

variable {α : Type}

/-! ## Building -/

/-- A value with the normal form of the given units. -/
def ofUnits (value : α) (units : Units) (options : Options) : Quantity α :=
  ⟨value, units.normalize, options⟩

/-- A value with the units of an expression. -/
def ofText (symbols : Symbols) (value : α) (text : String) (options : Options) :
    Except ParseError (Quantity α) :=
  (symbols.parse text).map fun units => ofUnits value units options

/-- The same units and options with another value. -/
def withValue (q : Quantity α) (value : α) : Quantity α :=
  ofUnits value q.units q.options

/-- The quantity with the given options changed. -/
def withOptions (q : Quantity α) (mode : Option DisplayMode) (implicit : Option Bool) :
    Quantity α :=
  { q with options :=
      ⟨mode.getD q.options.mode, implicit.getD q.options.implicitDimensionless⟩ }

/-- Whether the units of two quantities have the same dimensions. -/
def hasSameUnits {β : Type} (q : Quantity α) (r : Quantity β) : Bool :=
  q.units.sameDimensions r.units

/-! ## Writing -/

/-- The units in the notation that the options choose. -/
def unitText (q : Quantity α) : String :=
  match q.options.mode with
  | .fractional => q.units.fractional
  | .exponential => q.units.exponential

/-- The value in the fewest digits that read back, and the units. -/
def text (q : Quantity) : String :=
  q.value.shortText ++ " " ++ q.unitText

/-! ## Families -/

section Families

variable [Mul α] [Div α]

/-- A value in a unit of a family, as a quantity in its standard unit. -/
def ofFamily (chart : Chart α) (value : α) (unit : String) (options : Options) :
    Except Error (Quantity α) :=
  match chart.toStandard value unit with
  | .error e => .error e
  | .ok standard =>
    match ofText Symbols.builtin standard chart.family.standardExpression options with
    | .error e => .error e
    | .ok q => .ok q

/-- The value in a unit of a family whose standard unit has the same dimensions. -/
def valueIn (q : Quantity α) (chart : Chart α) (unit : String) : Except Error α :=
  match Units.parse chart.family.standardExpression with
  | .error e => .error e
  | .ok expected =>
    if q.units.sameDimensions expected.normalize then
      match chart.ofStandard q.value unit with
      | .error e => .error e
      | .ok value => .ok value
    else
      .error <| .mismatch <|
        .family q.units chart.family.name chart.family.standardExpression

end Families

end Quantity

end Metrology
