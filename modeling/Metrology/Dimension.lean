/-!
# Metrology.Dimension -- the seven base dimensions and the reciprocal marker

A unit is made of base dimensions and, when none of them stands in its numerator, of a marker that
stands there instead: the `1` of `1/m`. The marker takes the place of a dimension wherever
dimensions are listed, last in their order.
-/

namespace Metrology

inductive Dimension where
  | time
  | length
  | mass
  | current
  | temperature
  | amountOfSubstance
  | luminousIntensity
  | reciprocal
deriving DecidableEq, Inhabited

namespace Dimension

/-- The dimensions in their order. -/
def all : List Dimension :=
  [time, length, mass, current, temperature, amountOfSubstance, luminousIntensity, reciprocal]

def name : Dimension → String
  | time => "time"
  | length => "length"
  | mass => "mass"
  | current => "current"
  | temperature => "temperature"
  | amountOfSubstance => "amount_of_substance"
  | luminousIntensity => "luminous_intensity"
  | reciprocal => "reciprocal"

/-- The symbol of the coherent unit without a prefix: the gram for mass, `1` for the marker. -/
def symbol : Dimension → String
  | time => "s"
  | length => "m"
  | mass => "g"
  | current => "A"
  | temperature => "K"
  | amountOfSubstance => "mol"
  | luminousIntensity => "cd"
  | reciprocal => "1"

def ofName? (name : String) : Option Dimension :=
  all.find? fun d => d.name = name

theorem mem_all (d : Dimension) : d ∈ all := by
  cases d <;> decide

end Dimension

end Metrology
