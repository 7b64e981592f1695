import Metrology.Binary64.Arithmetic
import Metrology.Dimension
import Metrology.Prefix

/-!
# Metrology.Term -- one factor of a unit

A term is a dimension raised to an exponent, with the prefix its symbol is written with. The prefix
is a matter of spelling: terms agree when their dimensions are the same and their exponents are
closer than a tolerance. Exponents are any numbers, so agreement is neither reflexive (NaN and the
infinities agree with nothing) nor transitive.
-/

namespace Metrology

namespace Exponent

/-- Exponents closer than this count as equal. -/
def tolerance : Binary64 := 1e-10

/-- Whether two exponents count as equal. -/
def close (x y : Binary64) : Bool := (x - y).abs.less tolerance

/-- Whether an exponent counts as zero. -/
def vanishes (x : Binary64) : Bool := x.abs.less tolerance

end Exponent

/-- A dimension with an exponent, and the prefix that its symbol carries. -/
structure Term where
  dimension : Dimension
  exponent : Binary64
  siPrefix : Option Prefix
deriving DecidableEq

namespace Term

/-- What stands in a numerator that has nothing else. -/
def marker : Term := ⟨.reciprocal, 1, none⟩

instance : Inhabited Term := ⟨marker⟩

def isReciprocal (t : Term) : Bool := t.dimension = .reciprocal

/-- Whether the term counts as absent. -/
def vanishes (t : Term) : Bool := Exponent.vanishes t.exponent

/-- Whether the term is a base dimension that stands in the numerator. -/
def inNumerator (t : Term) : Bool :=
  !t.isReciprocal && (0 : Binary64).less t.exponent && !t.vanishes

/-- Whether the term is a base dimension that is present. -/
def isPresent (t : Term) : Bool := !t.isReciprocal && !t.vanishes

/-- Same dimension and, up to the tolerance, same exponent. -/
def agrees (t u : Term) : Bool :=
  t.dimension = u.dimension && Exponent.close t.exponent u.exponent

/-- The symbol with its prefix; the marker shows none. -/
def symbol (t : Term) : String :=
  if t.isReciprocal then t.dimension.symbol
  else (t.siPrefix.elim "" Prefix.symbol) ++ t.dimension.symbol

end Term

end Metrology
