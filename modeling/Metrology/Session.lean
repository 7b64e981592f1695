import Metrology.Quantity.Arithmetic
import Metrology.Settings.Families

/-!
# Metrology.Session -- named quantities, symbols, families and settings together

A session holds what a user has defined: unit symbols, families, settings, and quantities in named
registers. A command either answers or fails. Commands on quantities can keep their result in a
register; the updating ones put it in the place of their left operand.

`Session.step` gives the session after a command beside the answer. What adds symbols or families says
how far it came, and the session is left there, whatever the answer. Registering the families of the
settings is the one command that makes several changes; each family is added as far as that goes.
-/

namespace Metrology

/-! ## Commands -/

/-- Where the units of a new quantity come from. -/
inductive UnitSource where
  /-- An expression in the built-in symbols. -/
  | builtin (text : String)
  /-- An expression in the session's symbols. -/
  | own (text : String)
  | terms (units : Units)

/-- Where the options of a new quantity come from. -/
inductive OptionSource where
  | given (options : Quantity.Options)
  /-- The session's settings. -/
  | configured

/-- A quantity to be built. -/
structure Draft where
  value : Binary64
  units : UnitSource
  options : OptionSource

/-- A quantity in a register, or one built on the spot. -/
inductive QuantitySource where
  | register (name : String)
  | draft (d : Draft)

/-- A right operand by its source. -/
inductive OperandSource where
  | quantity (source : QuantitySource)
  | scalar (x : Binary64)
  | unsupported (description : String)

/-- A family's registry: the session's, or the built-in one. -/
inductive RegistrySource where
  | own
  | builtin

/-- What a session can be told to do. `into` is the register that keeps a result. -/
inductive Command where
  | addSymbol (word : String) (dimension : Dimension) (prefixable : Bool)
  | addFamily (family : Family)
  | loadSettings (text : String)
  | registerFamilies
  | build (into : Option String) (draft : Draft)
  | measure (into : Option String) (registry : RegistrySource) (family : String)
      (value : Binary64) (unit : String) (options : OptionSource)
  | operate (into : Option String) (op : Operation) (left : QuantitySource) (right : OperandSource)
  | scalarOperate (into : Option String) (op : ScalarOperation) (left : Binary64)
      (right : QuantitySource)
  | unary (into : Option String) (f : UnaryFunction) (source : QuantitySource)
  | update (register : String) (op : Operation) (right : OperandSource)
  | setOptions (register : String) (mode : Option DisplayMode) (implicit : Option Bool)
  | recall (source : QuantitySource)
  | compare (left : QuantitySource) (right : OperandSource)
  | scalarCompare (right : QuantitySource)
  | sameUnits (left right : QuantitySource)
  | valueIn (source : QuantitySource) (family unit : String)

/-- What a command answers. -/
inductive Answer where
  | done
  | names (names : List String)
  | warnings (warnings : List Warning)
  | quantity (q : Quantity)
  | comparison (c : Comparison)
  | flag (b : Bool)
  | number (x : Binary64)
deriving DecidableEq

/-- Why a command fails. -/
inductive SessionError where
  | noQuantity (register : String)
  | error (e : Error)
deriving DecidableEq

/-- What a user has defined. -/
structure Session where
  symbols : Symbols
  registry : Registry
  settings : Settings
  registers : Table Quantity

namespace Session

/-- A session in which nothing has been defined yet. -/
def fresh : Session := ⟨Symbols.builtin, Registry.builtin, Settings.empty, Table.empty⟩

/-! ## Reading a session -/

/-- A result that can only fail with an error of the library. -/
def lift {α : Type} : Except Error α → Except SessionError α
  | .ok a => .ok a
  | .error e => .error (.error e)

def options (s : Session) : OptionSource → Except Error Quantity.Options
  | .given options => .ok options
  | .configured =>
    match s.settings.quantityOptions with
    | .ok (options, _) => .ok options
    | .error e => .error e

def units (s : Session) : UnitSource → Except Error Units
  | .terms units => .ok units
  | .builtin text => (Units.parse text).mapError .parse
  | .own text => (s.symbols.parse text).mapError .parse

/-- The quantity that a draft describes. -/
def build (s : Session) (draft : Draft) : Except Error Quantity := do
  let options ← s.options draft.options
  let units ← s.units draft.units
  return .ofUnits draft.value units options

def quantity (s : Session) : QuantitySource → Except SessionError Quantity
  | .register name =>
    match s.registers.get? name with
    | some q => .ok q
    | none => .error (.noQuantity name)
  | .draft draft => lift (s.build draft)

def operand (s : Session) : OperandSource → Except SessionError Operand
  | .quantity source => (s.quantity source).map .quantity
  | .scalar x => .ok (.scalar x)
  | .unsupported description => .ok (.unsupported description)

def chart (s : Session) (source : RegistrySource) (family : String) : Except Error Chart :=
  match source with
  | .own => (s.registry.chart family).mapError .conversion
  | .builtin => (Registry.builtin.chart family).mapError .conversion

/-- The quantity of a value in a unit of a family. -/
def measure (s : Session) (registry : RegistrySource) (family : String) (value : Binary64)
    (unit : String) (source : OptionSource) : Except Error Quantity := do
  let chart ← s.chart registry family
  let options ← s.options source
  Quantity.ofFamily chart value unit options

/-- The result of an operation on quantities by their sources. -/
def operate (s : Session) (op : Operation) (left : QuantitySource) (right : OperandSource) :
    Except SessionError Quantity := do
  let q ← s.quantity left
  let operand ← s.operand right
  lift (q.operate op operand)

/-! ## Changing a session -/

/-- Keeps a quantity in a register, if one is named. -/
def keep (s : Session) (into : Option String) (q : Quantity) : Session :=
  match into with
  | some name => { s with registers := s.registers.insert name q }
  | none => s

/-- Answers a quantity and keeps it; an error changes nothing. -/
def deliver (s : Session) (into : Option String) :
    Except SessionError Quantity → Session × Except SessionError Answer
  | .ok q => (s.keep into q, .ok (.quantity q))
  | .error e => (s, .error e)

/-- Answers something read off the session, which stays as it is. -/
def answer (s : Session) (result : Except SessionError Answer) :
    Session × Except SessionError Answer :=
  (s, result)

/-- The answer of a command that has changed a session as far as it got. -/
def verdict (answer : Answer) : Option Error → Except SessionError Answer
  | none => .ok answer
  | some e => .error (.error e)

/-- Adds the families of the settings to the registry. -/
def registerFamilies (s : Session) : Session × Except SessionError Answer :=
  match s.settings.families with
  | .error e => (s, .error (.error e))
  | .ok families =>
    let (registry, stop) := s.registry.addAll families
    ({ s with registry := registry }, verdict (.names registry.names) (stop.map .conversion))

/-- The session after a command, and the answer. -/
def step (s : Session) : Command → Session × Except SessionError Answer
  | .addSymbol word dimension prefixable =>
    let (symbols, stop) := s.symbols.add word dimension prefixable
    ({ s with symbols := symbols }, verdict .done (stop.map .parse))
  | .addFamily family =>
    let (registry, stop) := s.registry.add family
    ({ s with registry := registry }, verdict .done (stop.map .conversion))
  | .loadSettings text =>
    let (settings, warnings) := s.settings.load text
    ({ s with settings := settings }, .ok (.warnings warnings))
  | .registerFamilies => s.registerFamilies
  | .build into draft => s.deliver into (lift (s.build draft))
  | .measure into registry family value unit options =>
    s.deliver into (lift (s.measure registry family value unit options))
  | .operate into op left right => s.deliver into (s.operate op left right)
  | .scalarOperate into op left right =>
    s.deliver into do
      let q ← s.quantity right
      lift (q.scalarOperate left op)
  | .unary into f source =>
    s.deliver into do
      let q ← s.quantity source
      return q.unary f
  | .update register op right =>
    s.deliver (some register) (s.operate op (.register register) right)
  | .setOptions register mode implicit =>
    s.deliver (some register) do
      let q ← s.quantity (.register register)
      return q.withOptions mode implicit
  | .recall source => s.answer ((s.quantity source).map .quantity)
  | .compare left right =>
    s.answer do
      let q ← s.quantity left
      let operand ← s.operand right
      return .comparison (q.compare operand)
  | .scalarCompare right =>
    s.answer ((s.quantity right).map fun _ => .comparison Quantity.scalarCompare)
  | .sameUnits left right =>
    s.answer do
      let q ← s.quantity left
      let r ← s.quantity right
      return .flag (q.hasSameUnits r)
  | .valueIn source family unit =>
    s.answer do
      let q ← s.quantity source
      let chart ← lift (s.chart .own family)
      return .number (← lift (q.valueIn chart unit))

/-- The session after a list of commands, and their answers in order. -/
def run (s : Session) : List Command → Session × List (Except SessionError Answer)
  | [] => (s, [])
  | command :: commands =>
    let (next, result) := s.step command
    let (last, results) := next.run commands
    (last, result :: results)

end Session

end Metrology
