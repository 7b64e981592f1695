import Metrology.Binary64.Arithmetic
import Metrology.Error
import Metrology.Table

/-!
# Metrology.Family.Basic -- families of units and conversion within them

A family lists units of one kind with their multipliers, one of them the standard unit, and aliases
for unit names. Some units take SI prefixes. A *chart* is a family with these prefixes worked out:
every such unit stands under each prefix symbol, and every alias of such a unit under each prefix
name. An entry that is worked out stands instead of one of the same name; the multipliers used are
always those of the family itself.

A name is resolved through the aliases once, and an alias hides a unit of the same name. A value is
converted by the target's multiplier over the source's, and left alone when the two names are the
same text, known or not.

Values are numbers of any kind that has a product and a quotient, binary64 numbers unless something
else is said.
-/

namespace Metrology

/-- Units of one kind, with their multipliers. -/
structure Family (α : Type := Binary64) where
  name : String
  standardUnit : String
  /-- The standard unit as a unit expression. -/
  standardExpression : String
  units : Table α
  aliases : Table String
  /-- The units that take SI prefixes. -/
  siUnits : List String
deriving DecidableEq

/-- A family with the prefixes of its units and aliases worked out. -/
structure Chart (α : Type := Binary64) where
  family : Family α
  units : Table α
  aliases : Table String
deriving DecidableEq

variable {α : Type}

namespace Family

/-- A family; an empty expression means that the standard unit is its own expression. -/
def make (name standardUnit standardExpression : String) (units : Table α)
    (aliases : Table String) (siUnits : List String) : Family α :=
  let expression := if standardExpression = "" then standardUnit else standardExpression
  ⟨name, standardUnit, expression, units, aliases, siUnits⟩

/-! ## Working out prefixes -/

section Expansion

variable [Mul α] [OfScientific α]

/-- A unit under each prefix symbol. -/
def prefixedUnits (unit : String) (multiplier : α) : List (String × α) :=
  Prefix.all.map fun p => (p.symbol ++ unit, multiplier * p.magnitude)

/-- Adds the prefixed units of a list to a table, with the multipliers of `base`. -/
def expandFrom (base : Table α) : List String → Table α → Except ConversionError (Table α)
  | [], units => .ok units
  | unit :: siUnits, units =>
    match base.get? unit with
    | none => .error (.prefixableWithoutMultiplier unit)
    | some multiplier => expandFrom base siUnits (units.insertAll (prefixedUnits unit multiplier))

/-- A table of units with the prefixed units of a list. -/
def expandUnits (base : Table α) (siUnits : List String) : Except ConversionError (Table α) :=
  expandFrom base siUnits base

end Expansion

/-- An alias under each prefix name, for its unit under the prefix symbol. -/
def prefixedAliases (nickname unit : String) : List (String × String) :=
  Prefix.all.map fun p => (p.name ++ nickname, p.symbol ++ unit)

/-- A table of aliases with the prefixed aliases of the units in a list. -/
def expandAliases (base : Table String) (siUnits : List String) : Table String :=
  base.entries.foldl
    (fun aliases (nickname, unit) =>
      if siUnits.contains unit then aliases.insertAll (prefixedAliases nickname unit) else aliases)
    base

/-- The chart of a family; every unit that takes prefixes has to have a multiplier. -/
def chart [Mul α] [OfScientific α] (family : Family α) : Except ConversionError (Chart α) :=
  (expandUnits family.units family.siUnits).map fun units =>
    ⟨family, units, expandAliases family.aliases family.siUnits⟩

end Family

namespace Chart

/-! ## Names -/

/-- The name that an alias stands for; any other name stands for itself. -/
def resolve (chart : Chart α) (name : String) : String :=
  (chart.aliases.get? name).getD name

def multiplier? (chart : Chart α) (name : String) : Option α :=
  chart.units.get? (chart.resolve name)

/-- Whether a name has a multiplier. -/
def has (chart : Chart α) (name : String) : Bool := (chart.multiplier? name).isSome

def multiplier (chart : Chart α) (name : String) : Except ConversionError α :=
  match chart.multiplier? name with
  | some m => .ok m
  | none => .error (.unknownUnit name chart.family.name)

/-! ## Conversion -/

variable [Mul α] [Div α]

/-- A value in one unit as a value in another; of two unknown names the first is the error. -/
def convert (chart : Chart α) (value : α) (source target : String) : Except ConversionError α :=
  if source = target then
    .ok value
  else
    match chart.multiplier source with
    | .error e => .error e
    | .ok m => (chart.multiplier target).map fun n => value * (n / m)

def toStandard (chart : Chart α) (value : α) (unit : String) : Except ConversionError α :=
  chart.convert value unit chart.family.standardUnit

def ofStandard (chart : Chart α) (value : α) (unit : String) : Except ConversionError α :=
  chart.convert value chart.family.standardUnit unit

end Chart

end Metrology
