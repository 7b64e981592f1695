import Metrology.Binary64.Decimal
import Metrology.Text
import Metrology.Units.Basic

/-!
# Metrology.Units.Notation -- how a unit is written

*Fractional* notation writes the factors with a positive exponent, a slash, and the others with
their exponents unsigned: `kg*m^2/s^2`. The slash is always there; a numerator that has no factor
is `1` when the unit has a marker.  *Exponential* notation writes every factor with its own
exponent: `kg*m^2*s^-2`. Both leave out absent terms, and the exponent one.
-/

namespace Metrology

namespace Exponent

/-- A whole number for an exponent close to one, else six significant digits. -/
def text (x : Binary64) : String :=
  if close x x.roundAway then Text.ofInt x.roundAway.toInt else x.written (.general 6)

/-- The exponent as it follows a symbol; nothing for an exponent close to one. -/
def mark (x : Binary64) : String :=
  if close x 1 then "" else "^" ++ text x

end Exponent

namespace Units

/-- A factor of the fractional notation: the symbol with the exponent unsigned. -/
def unsignedFactor (t : Term) : String :=
  t.symbol ++ Exponent.mark t.exponent.abs

/-- A factor of the exponential notation. -/
def signedFactor (t : Term) : String :=
  t.symbol ++ Exponent.mark t.exponent

/-- Whether a term is written above the slash. -/
def isAbove (t : Term) : Bool := (0 : Binary64).less t.exponent

/-- The numerator of the fractional notation. -/
def numerator (units : Units) : List String :=
  let factors := (units.filter fun t => t.isPresent && isAbove t).map unsignedFactor
  if factors.isEmpty && units.any fun t => t.isReciprocal && !t.vanishes then
    [Dimension.reciprocal.symbol]
  else
    factors

/-- The denominator of the fractional notation. -/
def denominator (units : Units) : List String :=
  (units.filter fun t => t.isPresent && !isAbove t).map unsignedFactor

def fractional (units : Units) : String :=
  Text.join "*" units.numerator ++ "/" ++ Text.join "*" units.denominator

def exponential (units : Units) : String :=
  Text.join "*" ((units.filter fun t => !t.vanishes).map signedFactor)

end Units

end Metrology
