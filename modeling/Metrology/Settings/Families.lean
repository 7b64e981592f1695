import Metrology.Quantity.Basic
import Metrology.Settings.Basic

/-!
# Metrology.Settings.Families -- families and options from settings

A section whose heading starts with `family.` describes a family, named by the rest of the heading.
Units are listed as `name:multiplier`, aliases as `alias:unit`, and units that take prefixes by
name. The standard expression is the standard unit unless another is given. A multiplier is a
numeral in range, greater than zero, with nothing after it.

The section `quantity` holds the options of new quantities.
-/

namespace Metrology

namespace Settings

/-! ## Families -/

/-- What the heading of a family's section starts with. -/
def familyStart : String := "family."

/-- The name of the family that a section describes. -/
def familyName (heading : String) : String :=
  if familyStart.toList.isPrefixOf heading.toList then
    .ofList (heading.toList.drop familyStart.length)
  else
    heading

/-- The value of a text that is wholly a numeral in range and greater than zero. -/
def multiplier? (text : List Char) : Option Binary64 :=
  match Numeral.read? text with
  | some (n, []) => if n.inRange && (0 : Binary64).less n.value then some n.value else none
  | _ => none

/-- A unit and its multiplier. -/
def unitEntry (heading : String) (entry : List Char) : Except SettingsError (String × Binary64) :=
  match Text.cutAt? ':' entry with
  | none => .error (.unitWithoutMultiplier heading (.ofList entry))
  | some (front, back) =>
    let name := Text.trim front
    let written := Text.trim back
    if name.isEmpty then
      .error (.unitWithoutName heading (.ofList entry))
    else
      match multiplier? written with
      | none => .error (.invalidMultiplier heading (.ofList name) (.ofList written))
      | some m => .ok (.ofList name, m)

/-- An alias and its unit. -/
def aliasEntry (heading : String) (entry : List Char) : Except SettingsError (String × String) :=
  match Text.cutAt? ':' entry with
  | none => .error (.aliasWithoutUnit heading (.ofList entry))
  | some (front, back) =>
    let nickname := Text.trim front
    let unit := Text.trim back
    if nickname.isEmpty || unit.isEmpty then
      .error (.incompleteAlias heading (.ofList entry))
    else
      .ok (.ofList nickname, .ofList unit)

/-- The entries of a list, each read by `f`; the first error stops. -/
def entries {α : Type} (f : List Char → Except SettingsError α) :
    List (List Char) → Except SettingsError (List α)
  | [] => .ok []
  | item :: items =>
    match f item with
    | .error e => .error e
    | .ok a => (entries f items).map (a :: ·)

/-- Checks the parts of a family against each other. -/
def checkFamily (heading : String) (family : Family) : Except SettingsError Family :=
  if !family.units.contains family.standardUnit then
    .error (.standardUnitNotListed heading family.standardUnit)
  else
    match family.siUnits.find? fun unit => !family.units.contains unit with
    | some unit => .error (.prefixableNotListed heading unit)
    | none =>
      match Units.parse family.standardExpression with
      | .error cause => .error (.standardExpression heading family.standardExpression cause)
      | .ok _ => .ok family

/-- The family that a section describes. -/
def family (s : Settings) (heading : String) : Except SettingsError Family :=
  if !s.hasSection heading then
    .error (.missingSection heading)
  else if familyName heading = "" then
    .error (.unnamedFamily heading)
  else
    let standardUnit := s.getD heading "standard_unit" ""
    if standardUnit = "" then
      .error (.missingStandardUnit heading)
    else
      match entries (unitEntry heading) (s.getItems heading "units") with
      | .error e => .error e
      | .ok units =>
        match entries (aliasEntry heading) (s.getItems heading "aliases") with
        | .error e => .error e
        | .ok aliases =>
          checkFamily heading
            { name := familyName heading
              standardUnit := standardUnit
              standardExpression := s.getD heading "standard_expression" standardUnit
              units := .ofList units
              aliases := .ofList aliases
              siUnits := (s.getItems heading "si_units").map String.ofList }

/-- The families under a list of headings; the first error stops. -/
def familiesUnder (s : Settings) : List String → Except SettingsError (List Family)
  | [] => .ok []
  | heading :: headings =>
    match s.family heading with
    | .error e => .error e
    | .ok family => (familiesUnder s headings).map (family :: ·)

/-- The families of all sections that describe one, in the order of their headings. -/
def families (s : Settings) : Except SettingsError (List Family) :=
  s.familiesUnder (s.headingsWith familyStart)

/-! ## Options -/

/-- The section that holds the options of quantities. -/
def optionsHeading : String := "quantity"

/-- The options of new quantities. -/
def quantityOptions (s : Settings) : Except SettingsError (Quantity.Options × List Warning) :=
  let mode : Except SettingsError DisplayMode :=
    match s.get? optionsHeading "display_mode" with
    | some text => DisplayMode.parse text
    | none => .ok .fractional
  mode.map fun mode =>
    let (implicit, warnings) := s.getBool optionsHeading "implicit_dimensionless" false
    (⟨mode, implicit⟩, warnings)

end Settings

end Metrology
