/-!
# Metrology.Prefix -- the SI prefixes

Twenty prefixes, each a power of ten with a symbol and a name. Symbols have one letter, except
`da`, whose first letter is the symbol of another prefix; case tells `m` from `M` and the like. The
magnitude is a decimal literal in whatever numbers the caller computes with.
-/

namespace Metrology

inductive Prefix where
  | yocto
  | zepto
  | atto
  | femto
  | pico
  | nano
  | micro
  | milli
  | centi
  | deci
  | deca
  | hecto
  | kilo
  | mega
  | giga
  | tera
  | peta
  | exa
  | zetta
  | yotta
deriving DecidableEq, Inhabited

namespace Prefix

/-- The prefixes, from the smallest to the largest. -/
def all : List Prefix :=
  [yocto, zepto, atto, femto, pico, nano, micro, milli, centi, deci,
    deca, hecto, kilo, mega, giga, tera, peta, exa, zetta, yotta]

def symbol : Prefix → String
  | yocto => "y"
  | zepto => "z"
  | atto => "a"
  | femto => "f"
  | pico => "p"
  | nano => "n"
  | micro => "u"
  | milli => "m"
  | centi => "c"
  | deci => "d"
  | deca => "da"
  | hecto => "h"
  | kilo => "k"
  | mega => "M"
  | giga => "G"
  | tera => "T"
  | peta => "P"
  | exa => "E"
  | zetta => "Z"
  | yotta => "Y"

def name : Prefix → String
  | yocto => "yocto"
  | zepto => "zepto"
  | atto => "atto"
  | femto => "femto"
  | pico => "pico"
  | nano => "nano"
  | micro => "micro"
  | milli => "milli"
  | centi => "centi"
  | deci => "deci"
  | deca => "deca"
  | hecto => "hecto"
  | kilo => "kilo"
  | mega => "mega"
  | giga => "giga"
  | tera => "tera"
  | peta => "peta"
  | exa => "exa"
  | zetta => "zetta"
  | yotta => "yotta"

/-- The power of ten that the prefix stands for. -/
def power : Prefix → Int
  | yocto => -24
  | zepto => -21
  | atto => -18
  | femto => -15
  | pico => -12
  | nano => -9
  | micro => -6
  | milli => -3
  | centi => -2
  | deci => -1
  | deca => 1
  | hecto => 2
  | kilo => 3
  | mega => 6
  | giga => 9
  | tera => 12
  | peta => 15
  | exa => 18
  | zetta => 21
  | yotta => 24

/-- The factor that the prefix stands for. -/
def magnitude {α : Type} [OfScientific α] (p : Prefix) : α :=
  OfScientific.ofScientific 1 (decide (p.power < 0)) p.power.natAbs

def ofSymbol? (symbol : String) : Option Prefix :=
  all.find? fun p => p.symbol = symbol

def ofName? (name : String) : Option Prefix :=
  all.find? fun p => p.name = name

theorem mem_all (p : Prefix) : p ∈ all := by
  cases p <;> decide

end Prefix

end Metrology
