import Metrology.Error
import Metrology.Table

/-!
# Metrology.Symbols -- unit symbols and their prefixes

A symbol stands for a dimension, and may be marked as one that takes SI prefixes. Dimensions and
marks are kept apart, in a table and in a set of words; that what is marked has a dimension too is
part of the type, so whatever adds a symbol has to see to it.

Symbols are words of letters. Adding a symbol that is known gives it a new dimension; it never loses
its mark.

A known symbol is always read as itself. Any other word is read as a prefix before a symbol that
takes prefixes, the two-letter prefix `da` being tried before those of one letter.
-/

namespace Metrology

/-- The symbols that unit expressions may use: what each of them stands for, and those that take
prefixes. -/
structure Symbols where
  dimensions : Table Dimension
  prefixable : Table Unit
  known : ∀ word, prefixable.contains word = true → dimensions.contains word = true

namespace Symbols

def empty : Symbols where
  dimensions := Table.empty
  prefixable := Table.empty
  known := fun _ h => h

def contains (symbols : Symbols) (word : String) : Bool := symbols.dimensions.contains word

def names (symbols : Symbols) : List String := symbols.dimensions.names

/-- Whether a symbol takes prefixes. -/
def isPrefixable (symbols : Symbols) (word : String) : Bool := symbols.prefixable.contains word

def dimensionOf? (symbols : Symbols) (word : String) : Option Dimension :=
  symbols.dimensions.get? word

def dimensionOf (symbols : Symbols) (word : String) : Except ParseError Dimension :=
  match symbols.dimensionOf? word with
  | some d => .ok d
  | none => .error (.unknownSymbol word)

/-! ## Adding a symbol -/

/-- The symbols with a dimension for a word, new or instead of another. -/
def assign (symbols : Symbols) (word : String) (dimension : Dimension) : Symbols where
  dimensions := symbols.dimensions.insert word dimension
  prefixable := symbols.prefixable
  known := fun other h => Table.contains_insert_iff.mpr (.inr (symbols.known other h))

/-- The symbols with a mark for one that is known. -/
def mark (symbols : Symbols) (word : String) (h : symbols.contains word = true) : Symbols where
  dimensions := symbols.dimensions
  prefixable := symbols.prefixable.insert word ()
  known := by
    intro other hother
    rcases Table.contains_insert_iff.mp hother with rfl | hmarked
    · exact h
    · exact symbols.known other hmarked

theorem contains_assign_self (symbols : Symbols) (word : String) (dimension : Dimension) :
    (symbols.assign word dimension).contains word = true :=
  Table.contains_insert_iff.mpr (.inl rfl)

/-- The symbols after one more has been offered, which has to be alphabetic, and what is wrong with
it if it is not. -/
def add (symbols : Symbols) (word : String) (dimension : Dimension) (prefixable : Bool) :
    Symbols × Option ParseError :=
  if Text.isAlphabetic word.toList then
    let assigned := symbols.assign word dimension
    if prefixable then
      (assigned.mark word (symbols.contains_assign_self word dimension), none)
    else
      (assigned, none)
  else
    (symbols, some (.notAlphabetic word))

/-! ## Prefixes -/

/-- The reading of a word as a prefix of `length` letters before a symbol that takes prefixes. A word
that ends with the prefix has none. -/
def separateAt? (symbols : Symbols) (length : Nat) (word : List Char) :
    Option (String × Option Prefix) :=
  if word.length ≤ length then
    none
  else
    match Prefix.ofSymbol? (.ofList (word.take length)) with
    | some p =>
      let rest := String.ofList (word.drop length)
      if symbols.isPrefixable rest then some (rest, some p) else none
    | none => none

/-- The symbol in a word, and its prefix if it has one. -/
def separate? (symbols : Symbols) (word : String) : Option (String × Option Prefix) :=
  if symbols.contains word then
    some (word, none)
  else
    symbols.separateAt? 2 word.toList <|> symbols.separateAt? 1 word.toList

/-! ## The built-in symbols -/

/-- The symbols with some of one dimension that take prefixes, or do not. -/
def addGroup (dimension : Dimension) (prefixable : Bool) (words : List String)
    (symbols : Symbols) : Symbols :=
  words.foldl (fun symbols word => (symbols.add word dimension prefixable).1) symbols

/-- The SI base units, which alone take prefixes, and customary units of their dimensions. -/
def builtin : Symbols :=
  empty
    |> addGroup .time true ["s"]
    |> addGroup .length true ["m"]
    |> addGroup .mass true ["g"]
    |> addGroup .current true ["A"]
    |> addGroup .temperature true ["K"]
    |> addGroup .amountOfSubstance true ["mol"]
    |> addGroup .luminousIntensity true ["cd"]
    |> addGroup .time false ["min", "hr", "h", "day", "week", "yr"]
    |> addGroup .length false
        ["ft", "inch", "in", "yd", "mi", "fathom", "chain", "link", "rod", "ly", "pc", "au", "ang",
          "fermi"]
    |> addGroup .mass false ["tonne", "oz", "lb", "gr", "stone", "carat", "ct"]
    |> addGroup .current false ["amp", "ampere"]
    |> addGroup .temperature false ["degC", "degF", "degR"]
    |> addGroup .luminousIntensity false ["cp", "hk"]

end Symbols

end Metrology
