import Metrology.Binary64.Numeral
import Metrology.Symbols

/-!
# Metrology.Expression -- reading unit expressions

An expression is a numerator and, after a slash, a denominator; each is a product of items written
with `*`. Brackets of any kind group nothing and are deleted first. An item is a symbol, possibly
with a prefix, possibly with `^` and a signed whole exponent; in the numerator it can also be a
lone `1`, which stands for the marker. Exponents have 32 bits and a sign, and change sign in the
denominator.

Reading gives one term for each item, in order; nothing is gathered or dropped.
-/

namespace Metrology

namespace Expression

/-- The brackets that are deleted from an expression. -/
def isGrouping (c : Char) : Bool :=
  c = '(' || c = ')' || c = '[' || c = ']' || c = '\x7b' || c = '\x7d'

/-- The whole numbers an exponent may be. -/
def inExponentRange (z : Int) : Bool := -2147483648 ≤ z && z ≤ 2147483647

/-- The exponent written after the first `^` of an item. -/
def exponent (item written : List Char) : Except ParseError Int :=
  if written.contains '^' then
    .error (.secondCaret (.ofList item))
  else if written.isEmpty then
    .error (.missingExponent (.ofList item))
  else
    let (negative, digits) := Numeral.readSign written
    if digits.isEmpty || !digits.all Char.isDigit then
      .error (.malformedExponent (.ofList item))
    else
      let size : Int := Numeral.digitsValue 10 digits
      let z := if negative then -size else size
      if inExponentRange z then .ok z else .error (.exponentOutOfRange (.ofList item))

/-- The symbol of an item, and its exponent if one is written. -/
def symbolAndExponent (item : List Char) : Except ParseError (List Char × Option Int) :=
  match Text.cutAt? '^' item with
  | none => .ok (item, none)
  | some (symbol, written) => (exponent item written).map fun z => (symbol, some z)

/-- The term of a word that has to be a symbol, possibly with a prefix. -/
def symbolTerm (symbols : Symbols) (word : String) (exponent : Int) : Except ParseError Term :=
  match symbols.separate? word with
  | none => .error (.unknownSymbol word)
  | some (symbol, siPrefix) =>
    (symbols.dimensionOf symbol).map fun d => ⟨d, Binary64.ofInt exponent, siPrefix⟩

/-- The term of an item, given without blanks at its ends. -/
def itemTerm (symbols : Symbols) (inDenominator : Bool) (item : List Char) :
    Except ParseError Term :=
  if item.isEmpty then
    .error .emptyTerm
  else
    match symbolAndExponent item with
    | .error e => .error e
    | .ok (symbol, written) =>
      if symbol = ['1'] then
        if inDenominator then .error (.numberInDenominator (.ofList item))
        else if written.isSome then .error (.oneNotAlone (.ofList item))
        else .ok .marker
      else if !Text.isAlphabetic symbol then
        .error (.misplacedNumber (.ofList item))
      else
        let z := written.getD 1
        symbolTerm symbols (.ofList symbol) (if inDenominator then -z else z)

/-- The terms of a list of items; the first error stops. -/
def itemTerms (symbols : Symbols) (inDenominator : Bool) :
    List (List Char) → Except ParseError Units
  | [] => .ok []
  | item :: items =>
    match itemTerm symbols inDenominator (Text.trim item) with
    | .error e => .error e
    | .ok t => (itemTerms symbols inDenominator items).map (t :: ·)

/-- The terms of the factors of one side of the slash. -/
def sideTerms (symbols : Symbols) (inDenominator : Bool) (side : List Char) :
    Except ParseError Units :=
  itemTerms symbols inDenominator (Text.separated '*' side)

end Expression

/-- Reads a unit expression. -/
def Symbols.parse (symbols : Symbols) (text : String) : Except ParseError Units :=
  match Text.separated '/' (text.toList.filter fun c => !Expression.isGrouping c) with
  | [] => .ok []
  | [above] => Expression.sideTerms symbols false above
  | [above, below] =>
    match Expression.sideTerms symbols false above with
    | .error e => .error e
    | .ok top => (Expression.sideTerms symbols true below).map (top ++ ·)
  | _ => .error (.secondDivisor text)

/-- Reads a unit expression with the built-in symbols. -/
def Units.parse (text : String) : Except ParseError Units := Symbols.builtin.parse text

end Metrology
