import Metrology.Units.Notation

/-!
# Metrology.Error -- what can go wrong

Errors are causes. Each kind is a type of its own: a text that is no unit expression, units that do
not match, a bare number where a unit is expected, a conversion that has no multiplier, an
operation that quantities do not have, and settings that make no sense. `Error.message` words a
cause.
-/

namespace Metrology

/-- Why a text is not a unit expression, or not a unit symbol. -/
inductive ParseError where
  | notAlphabetic (symbol : String)
  | unknownSymbol (symbol : String)
  | secondDivisor (text : String)
  | emptyTerm
  | secondCaret (item : String)
  | missingExponent (item : String)
  | malformedExponent (item : String)
  | exponentOutOfRange (item : String)
  | numberInDenominator (item : String)
  | oneNotAlone (item : String)
  | misplacedNumber (item : String)
deriving DecidableEq

/-- Units that differ where they have to be the same. -/
inductive MismatchError where
  | summands (left right : Units)
  | family (units : Units) (name expression : String)
deriving DecidableEq

/-- A number without units where one with units is needed. -/
inductive DimensionlessError where
  | summand
  | factor
  | dividend
deriving DecidableEq

/-- A family that can not be used, or that is not there. -/
inductive ConversionError where
  | prefixableWithoutMultiplier (unit : String)
  | unknownUnit (unit family : String)
  | unnamedFamily
  | unknownFamily (family : String)
deriving DecidableEq

/-- An operation that quantities do not have. -/
inductive UnsupportedError where
  | operand (description : String)
  | exponentWithUnits
  | exponent (description : String)
  | modulo
  | divmod
deriving DecidableEq

/-- A setting that can not be understood. All but the first name the section at fault. -/
inductive SettingsError where
  | unknownDisplayMode (text : String)
  | missingSection (heading : String)
  | unnamedFamily (heading : String)
  | missingStandardUnit (heading : String)
  | unitWithoutMultiplier (heading entry : String)
  | unitWithoutName (heading entry : String)
  | invalidMultiplier (heading unit text : String)
  | aliasWithoutUnit (heading entry : String)
  | incompleteAlias (heading entry : String)
  | standardUnitNotListed (heading unit : String)
  | prefixableNotListed (heading unit : String)
  | standardExpression (heading expression : String) (cause : ParseError)
deriving DecidableEq

inductive Error where
  | parse (cause : ParseError)
  | mismatch (cause : MismatchError)
  | dimensionless (cause : DimensionlessError)
  | conversion (cause : ConversionError)
  | unsupported (cause : UnsupportedError)
  | settings (cause : SettingsError)
deriving DecidableEq

/-! ## Wording -/

def ParseError.wording : ParseError → String
  | notAlphabetic symbol => "Unit symbols must be alphabetic: '" ++ symbol ++ "'"
  | unknownSymbol symbol => "Unknown unit symbol: '" ++ symbol ++ "'"
  | secondDivisor text => "More than one divisor (i.e. '/') is not allowed: '" ++ text ++ "'"
  | emptyTerm => "Empty unit term"
  | secondCaret item => "Unit has more than one '^': '" ++ item ++ "'"
  | missingExponent item => "Unit has '^' but no exponent: '" ++ item ++ "'"
  | malformedExponent item =>
    "Exponent should be a signed integer (i.e. \"m^2\" not \"m^2.5\" or \"m^k\"): '" ++ item ++ "'"
  | exponentOutOfRange item => "Exponent out of range: '" ++ item ++ "'"
  | numberInDenominator item =>
    "May not have numbers in the denominator except in exponents: '" ++ item ++ "'"
  | oneNotAlone item => "1 must be alone when using an inverse unit: '" ++ item ++ "'"
  | misplacedNumber item =>
    "Numbers are not allowed in units except for in the case of inverse units, 1/m, and " ++
      "exponents, m^2: '" ++ item ++ "'"

def MismatchError.wording : MismatchError → String
  | summands left right =>
    "Can not add or subtract values with different units: " ++ left.fractional ++ " and " ++
      right.fractional
  | family units name expression =>
    "Can not express " ++ units.fractional ++ " in the " ++ name ++
      " family, whose standard unit is " ++ expression

def DimensionlessError.wording : DimensionlessError → String
  | summand => "Can not add or subtract a dimensionless value to a value with units."
  | factor =>
    "Can not multiply or divide by a dimensionless number without explicitly declaring it as " ++
      "one or enabling implicit_dimensionless."
  | dividend =>
    "Can not divide a dimensionless number by a value with units without enabling " ++
      "implicit_dimensionless."

def ConversionError.wording : ConversionError → String
  | prefixableWithoutMultiplier unit => "SI unit '" ++ unit ++ "' has no multiplier"
  | unknownUnit unit family => "Invalid unit '" ++ unit ++ "' entered for " ++ family ++ " value"
  | unnamedFamily => "Unit family must have a name"
  | unknownFamily family => "Unknown unit family: " ++ family

def UnsupportedError.wording : UnsupportedError → String
  | operand description =>
    "The type of the value (" ++ description ++
      ") either has not been implemented or is non-numeric."
  | exponentWithUnits => "The exponent has units, which is not allowed."
  | exponent description => "Exponents of type " ++ description ++ " are not supported."
  | modulo => "Modulo is not supported for quantities."
  | divmod => "Divmod is not supported for quantities."

def SettingsError.wording : SettingsError → String
  | unknownDisplayMode text => "Unknown display mode: " ++ text
  | missingSection heading => "No [" ++ heading ++ "] section found"
  | unnamedFamily heading => "Unit family section [" ++ heading ++ "] has no name"
  | missingStandardUnit heading => "[" ++ heading ++ "] requires a standard_unit"
  | unitWithoutMultiplier heading entry =>
    "[" ++ heading ++ "] unit entry must be name:multiplier, got '" ++ entry ++ "'"
  | unitWithoutName heading entry =>
    "[" ++ heading ++ "] unit entry has no name: '" ++ entry ++ "'"
  | invalidMultiplier heading unit text =>
    "[" ++ heading ++ "] invalid multiplier for unit '" ++ unit ++ "': '" ++ text ++ "'"
  | aliasWithoutUnit heading entry =>
    "[" ++ heading ++ "] alias entry must be alias:unit, got '" ++ entry ++ "'"
  | incompleteAlias heading entry => "[" ++ heading ++ "] incomplete alias entry: '" ++ entry ++ "'"
  | standardUnitNotListed heading unit =>
    "[" ++ heading ++ "] standard_unit '" ++ unit ++ "' has no multiplier in units"
  | prefixableNotListed heading unit =>
    "[" ++ heading ++ "] SI unit '" ++ unit ++ "' has no multiplier in units"
  | standardExpression heading expression cause =>
    "[" ++ heading ++ "] standard_expression '" ++ expression ++ "' is not a unit expression: " ++
      cause.wording

def Error.wording : Error → String
  | parse cause => cause.wording
  | mismatch cause => cause.wording
  | dimensionless cause => cause.wording
  | conversion cause => cause.wording
  | unsupported cause => cause.wording
  | settings cause => cause.wording

/-- The message of an error: its wording, which a NUL character in a quoted text cuts short. -/
def Error.message (e : Error) : String := Text.untilNul e.wording

instance : Coe ParseError Error := ⟨.parse⟩
instance : Coe MismatchError Error := ⟨.mismatch⟩
instance : Coe DimensionlessError Error := ⟨.dimensionless⟩
instance : Coe ConversionError Error := ⟨.conversion⟩
instance : Coe UnsupportedError Error := ⟨.unsupported⟩
instance : Coe SettingsError Error := ⟨.settings⟩

end Metrology
