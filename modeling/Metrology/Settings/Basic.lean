import Metrology.Table
import Metrology.Text

/-!
# Metrology.Settings.Basic -- sections of keys and values

Settings are read from texts of lines. A line in square brackets is the heading of the lines after
it; a line with `=` assigns a value to a key under that heading, a `#` starting a comment in the
value; empty lines and lines that start with `#` or `;` say nothing. Any other line, and an
assignment under no heading or an empty one, is passed over with a warning.

Texts are loaded one after the other into the same settings, and a later assignment to a key stands
instead of an earlier one. A section exists once a key in it has a value.
-/

namespace Metrology

/-- What a line of a settings text says. -/
inductive SettingsLine where
  | blank
  | heading (name : List Char)
  | assignment (key value : List Char)
  | invalid (text : List Char)
deriving DecidableEq

/-- What loading or reading settings has to remark. -/
inductive Warning where
  | invalidLine (number : Nat) (text : String)
  | keyWithoutSection (number : Nat)
  | notBoolean (heading key value : String)
deriving DecidableEq

/-- The line that a warning writes. -/
def Warning.line : Warning → String
  | invalidLine number text =>
    "Warning: Invalid line " ++ Text.ofInt number ++ ": " ++ text ++ "\n"
  | keyWithoutSection number =>
    "Warning: Key without section at line " ++ Text.ofInt number ++ "\n"
  | notBoolean heading key value =>
    "Warning: Cannot parse [" ++ heading ++ "]:" ++ key ++ " = '" ++ value ++ "' as boolean\n"

/-- The lines that warnings write. -/
def Warning.log (warnings : List Warning) : String :=
  Text.join "" (warnings.map Warning.line)

namespace SettingsLine

/-- The name in a heading, if a line is one. -/
def heading? : List Char → Option (List Char)
  | '[' :: rest => if rest.getLast? = some ']' then some (Text.trim rest.dropLast) else none
  | _ => none

/-- What a line says, given without blanks at its ends. -/
def ofTrimmed (line : List Char) : SettingsLine :=
  if line.isEmpty || line.head? = some '#' || line.head? = some ';' then
    .blank
  else
    match heading? line with
    | some name => .heading name
    | none =>
      match Text.cutAt? '=' line with
      | some (key, value) =>
        .assignment (Text.trim key) (Text.trim (Text.before '#' (Text.trim value)))
      | none => .invalid line

end SettingsLine

/-- Values under keys under headings. -/
structure Settings where
  sections : Table (Table String)
deriving DecidableEq

namespace Settings

def empty : Settings := ⟨Table.empty⟩

instance : Inhabited Settings := ⟨empty⟩

/-! ## Loading -/

/-- The settings with a value for a key. -/
def assign (s : Settings) (heading key value : String) : Settings :=
  ⟨s.sections.insert heading (((s.sections.get? heading).getD Table.empty).insert key value)⟩

/-- Loads lines from a given number on, under the heading that governs the first of them. -/
def loadLines (s : Settings) (heading : String) (number : Nat) :
    List (List Char) → Settings × List Warning
  | [] => (s, [])
  | line :: lines =>
    match SettingsLine.ofTrimmed (Text.trim line) with
    | .blank => loadLines s heading (number + 1) lines
    | .heading name => loadLines s (.ofList name) (number + 1) lines
    | .invalid text =>
      let (loaded, warnings) := loadLines s heading (number + 1) lines
      (loaded, .invalidLine number (.ofList text) :: warnings)
    | .assignment key value =>
      if heading = "" then
        let (loaded, warnings) := loadLines s heading (number + 1) lines
        (loaded, .keyWithoutSection number :: warnings)
      else
        loadLines (s.assign heading (.ofList key) (.ofList value)) heading (number + 1) lines

/-- Loads a text into the settings. The text starts under no heading. -/
def load (s : Settings) (text : String) : Settings × List Warning :=
  s.loadLines "" 1 (Text.terminated '\n' text.toList)

/-! ## Reading -/

def get? (s : Settings) (heading key : String) : Option String :=
  (s.sections.get? heading).bind fun keys => keys.get? key

def getD (s : Settings) (heading key default : String) : String :=
  (s.get? heading key).getD default

def hasSection (s : Settings) (heading : String) : Bool := s.sections.contains heading

def hasKey (s : Settings) (heading key : String) : Bool := (s.get? heading key).isSome

/-- The headings that start with a text, in order. -/
def headingsWith (s : Settings) (start : String) : List String :=
  s.sections.names.filter fun heading => start.toList.isPrefixOf heading.toList

/-- The items of a value that is a list with commas; none for a missing key. -/
def getItems (s : Settings) (heading key : String) : List (List Char) :=
  Text.items ',' (s.getD heading key "").toList

/-- A value read as yes or no, in any case; the default for a missing or empty value, and with a
warning for any other. -/
def getBool (s : Settings) (heading key : String) (default : Bool) : Bool × List Warning :=
  let value := Text.lower (s.getD heading key "")
  if value = "" then (default, [])
  else if ["true", "yes", "1", "on"].contains value then (true, [])
  else if ["false", "no", "0", "off"].contains value then (false, [])
  else (default, [.notBoolean heading key value])

end Settings

end Metrology
