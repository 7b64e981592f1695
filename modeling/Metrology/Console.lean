import Metrology.Binary64.Decimal
import Metrology.Program
import Metrology.Settings.Families

/-!
# Metrology.Console -- the unit converter's command line

Leading `--config` options add the families of settings files to the built-in ones. Then stands a
command: `--list`, `--render`, `--help`, or a value with the unit it is in and the unit it is
wanted in, possibly with a family. Without a family the first one that knows the unit is taken.

Each command is a program that writes as it goes: a report of a conversion is begun before its last
number has been computed. Converting handles every error and rendering those of its expression;
nothing handles an error of a listing.

`run` gives all that is written and the exit code, from the arguments and the texts of the files
that can be opened.
-/

namespace Metrology

namespace Console

open Program

/-- Ends a program as unsuccessful, with a complaint. -/
def refuse (complaint : String) : Program UInt32 := do
  complain ("Error: " ++ complaint ++ "\n")
  return 1

def help : String :=
  "\nUALG Unit Converter\n" ++
  "===================\n\n" ++
  "Usage:\n" ++
  "  unit_converter <value> <from_unit> <to_unit> [family]\n" ++
  "  unit_converter --render <unit_expr>\n" ++
  "  unit_converter --list [family]\n" ++
  "  unit_converter --config <file> ...\n" ++
  "  unit_converter --help\n\n" ++
  "Examples:\n" ++
  "  unit_converter 2 kilogram lb\n" ++
  "  unit_converter 30 day s\n" ++
  "  unit_converter 3 gallon l volume\n" ++
  "  unit_converter --render \"kg^3/m*s\"\n" ++
  "  unit_converter --list\n" ++
  "  unit_converter --list mass\n\n" ++
  "Families:\n" ++
  "  mass, distance, time, current, amount, luminous_intensity, volume, energy\n" ++
  "  (more can be defined in [family.<name>] sections of a config file)\n\n"

/-- A line of `width` times the same character. -/
def rule (width : Nat) (c : Char) : String :=
  .ofList (List.replicate width c) ++ "\n"

/-- The chart of a family by its name. -/
def chartOf (registry : Registry) (name : String) : Program Chart :=
  ofResult ((registry.chart name).mapError .conversion)

/-! ## Listing families and units -/

def familyLine (name : String) (family : Family) : String :=
  Text.padRight 25 name ++ " (" ++ Text.ofInt family.units.size ++ " units, standard " ++
    family.standardUnit ++ ")\n"

def listFamily (registry : Registry) (name : String) : Program Unit := do
  let chart ← chartOf registry name
  print (familyLine name chart.family)

def listFamilies (registry : Registry) : Program Unit := do
  print "Available Unit Families:\n========================\n\n"
  registry.names.forM (listFamily registry)
  print "\nUse: unit_converter --list <family> to see units in a family\n\n"

def unitLine (name : String) (multiplier : Binary64) : String :=
  Text.padRight 30 name ++ multiplier.written (.scientific 6) ++ "\n"

def unitsText (name : String) (family : Family) : String :=
  "Units in family: " ++ name ++ "\n" ++
  rule 50 '=' ++ "\n" ++
  Text.padRight 30 "Name" ++ "In " ++ family.standardUnit ++ "\n" ++
  rule 50 '-' ++
  Text.join "" (family.units.entries.map fun (unit, multiplier) => unitLine unit multiplier) ++
  (if family.siUnits.isEmpty then ""
    else "\nSI-prefixable: " ++ Text.join ", " family.siUnits ++ "\n") ++
  "\n"

/-- The units of a family, or all families for an empty name. -/
def list (registry : Registry) (name : String) : Program Unit := do
  print "\n"
  if name = "" then
    listFamilies registry
  else if registry.contains name then
    let chart ← chartOf registry name
    print (unitsText name chart.family)
  else
    print ("Family '" ++ name ++
      "' not found.\nUse: unit_converter --list to see available families\n\n")

/-! ## Rendering an expression -/

def termLine (t : Term) : String :=
  "    " ++ Text.padRight 22 t.dimension.name ++ Exponent.text t.exponent ++
    (t.siPrefix.elim "" fun p => "  (" ++ p.name ++ ")") ++ "\n"

/-- Refuses for an error in an expression; any other error is passed on. -/
def refuseParse : Error → Program UInt32
  | .parse cause => refuse (Error.parse cause).message
  | e => fail e

/-- An expression in both notations, and the terms of its normal form. -/
def render (expression : String) : Program UInt32 :=
  handle
    (do
      let units ← ofResult ((Units.parse expression).mapError .parse)
      let normal := units.normalize
      print ("\n  Input:        " ++ expression ++ "\n")
      print ("  Fractional:   " ++ normal.fractional ++ "\n")
      print ("  Exponential:  " ++ normal.exponential ++ "\n\n  Terms:\n")
      print (Text.join "" (normal.map termLine) ++ "\n")
      return 0)
    refuseParse

/-! ## Converting a value -/

/-- The part of a report that is written before the conversion factor is computed. -/
def conversionText (family : String) (value : Binary64) (source target : String)
    (result : Binary64) (standard : Quantity) : String :=
  "\nConversion Result (" ++ family ++ "):\n==================\n\n" ++
  "  Input:    " ++ value.written (.fixed 6) ++ " " ++ source ++ "\n" ++
  "  Output:   " ++ result.written (.fixed 6) ++ " " ++ target ++ "\n\n" ++
  "  Standard: " ++ standard.value.written (.scientific 6) ++ " " ++
    standard.units.exponential ++ "\n\n"

def factorText (source target : String) (factor : Binary64) : String :=
  "Conversion Factor: 1 " ++ source ++ " = " ++ factor.written (.scientific 9) ++ " " ++
    target ++ "\n\n"

/-- Converts with a chart and reports the result. -/
def report (family : String) (chart : Chart) (value : Binary64) (source target : String) :
    Program UInt32 := do
  let result ← ofResult ((chart.convert value source target).mapError .conversion)
  let standard ← ofResult (Quantity.ofFamily chart value source ⟨.fractional, false⟩)
  print (conversionText family value source target result standard)
  let factor ← ofResult ((chart.convert 1 source target).mapError .conversion)
  print (factorText source target factor)
  return 0

/-- Converts within a family. -/
def convertIn (registry : Registry) (family : String) (value : Binary64) (source target : String) :
    Program UInt32 :=
  handle
    (do
      let chart ← chartOf registry family
      if chart.has target then
        report family chart value source target
      else
        refuse ("Unknown destination unit '" ++ target ++ "' for family " ++ family ++
          "\nUse --list " ++ family ++ " to see available units"))
    fun e => refuse e.message

/-- The family that is asked for; for an empty name the first that knows the unit, and the empty
name where none does. -/
def chosenFamily (registry : Registry) (family source : String) : String :=
  if family = "" then (registry.familyWith? source).getD "" else family

/-- Converts within the family that is asked for or found. -/
def convertValue (registry : Registry) (family : String) (value : Binary64)
    (source target : String) : Program UInt32 :=
  let chosen := chosenFamily registry family source
  if chosen = "" then
    refuse ("Unknown source unit '" ++ source ++ "'\nUse --list to see available units")
  else
    convertIn registry chosen value source target

/-- Reads the value as the numeral that its text starts with, and converts it. -/
def convert (registry : Registry) (value source target family : String) : Program UInt32 :=
  match Numeral.read? value.toList with
  | none => refuse ("Invalid value '" ++ value ++ "'")
  | some (n, _) =>
    if n.inRange then convertValue registry family n.value source target
    else refuse "Value out of range"

/-! ## Arguments -/

/-- What the arguments after the leading `--config` options ask for. -/
def command (registry : Registry) (args : List String) : Program UInt32 :=
  if args = [] ∨ args = ["--help"] then do
    print help
    return 0
  else if args.head? = some "--list" then do
    list registry (args.tail.headD "")
    return 0
  else if args.head? = some "--render" then
    match args.tail with
    | [expression] => render expression
    | _ => refuse "--render takes exactly one unit expression"
  else
    match args with
    | [value, source, target] => convert registry value source target ""
    | [value, source, target, family] => convert registry value source target family
    | _ => do
      let code ← refuse "Invalid number of arguments"
      print help
      return code

/-- The registry with all of some families. -/
def extend (registry : Registry) (families : List Family) : Program Registry :=
  match registry.addAll families with
  | (extended, none) => return extended
  | (_, some e) => fail e

/-- The registry with the families of a settings file. Where there is none, the reason has been
complained of. -/
def configure (files : String → Option String) (registry : Registry) (file : String) :
    Program (Option Registry) :=
  match files file with
  | none => do
    complain ("Error: Cannot open configuration file: " ++ file ++ "\n")
    return none
  | some text => do
    let (settings, warnings) := Settings.empty.load text
    complain (Warning.log warnings)
    handle
      (do
        let families ← ofResult (settings.families.mapError .settings)
        let extended ← extend registry families
        return some extended)
      fun e => do
        complain ("Error: " ++ file ++ ": " ++ e.message ++ "\n")
        return none

/-- Runs arguments with a registry. A `--config` that a file name follows extends it for the rest.
-/
def runWith (files : String → Option String) (registry : Registry) :
    List String → Program UInt32
  | option :: file :: rest =>
    if option = "--config" then do
      match ← configure files registry file with
      | none => return 1
      | some extended => runWith files extended rest
    else
      command registry (option :: file :: rest)
  | args => command registry args

/-- Runs the converter with its arguments; `files` gives the text of each file that can be opened.
-/
def run (files : String → Option String) (args : List String) : Outcome :=
  (runWith files Registry.builtin args).outcome

/-- The files that the leading `--config` options name. -/
def configFiles : List String → List String
  | option :: file :: rest => if option = "--config" then file :: configFiles rest else []
  | _ => []

end Console

end Metrology
