/-!
# Metrology.Text -- cutting, trimming and joining texts

Texts are cut as lists of characters. A mark can *separate* pieces, so that there is always one
piece more than there are marks, or *terminate* them, so that a text which ends with its mark has
nothing after it. Unit expressions and number lists are separated; lines are terminated.

A blank is a space, a tab, a carriage return or a line feed, and no other character: letters and
digits are the ASCII ones throughout the library.
-/

namespace Metrology

namespace Text

/-! ## Blanks -/

def isBlank (c : Char) : Bool :=
  c = ' ' || c = '\t' || c = '\r' || c = '\n'

/-- The text without the blanks at its two ends. -/
def trim (s : List Char) : List Char :=
  ((s.dropWhile isBlank).reverse.dropWhile isBlank).reverse

/-! ## Cutting -/

/-- The pieces that a mark separates: one more than the marks, the last possibly empty. -/
def separated (mark : Char) : List Char → List (List Char)
  | [] => [[]]
  | c :: s =>
    if c = mark then
      [] :: separated mark s
    else
      match separated mark s with
      | [] => [[c]]
      | piece :: pieces => (c :: piece) :: pieces

/-- The pieces that a mark terminates; what follows the last mark is a piece unless it is empty. -/
def terminated (mark : Char) : List Char → List (List Char)
  | [] => []
  | c :: s =>
    if c = mark then
      [] :: terminated mark s
    else
      match terminated mark s with
      | [] => [[c]]
      | piece :: pieces => (c :: piece) :: pieces

/-- The items of a list written with a mark: trimmed, without the empty ones. -/
def items (mark : Char) (s : List Char) : List (List Char) :=
  ((terminated mark s).map trim).filter fun item => !item.isEmpty

/-- What stands before the first `mark`; all of the text when there is none. -/
def before (mark : Char) (s : List Char) : List Char :=
  s.takeWhile fun c => c ≠ mark

/-- What stands before and after the first `mark`, if there is one. -/
def cutAt? (mark : Char) : List Char → Option (List Char × List Char)
  | [] => none
  | c :: s =>
    if c = mark then some ([], s)
    else (cutAt? mark s).map fun (front, back) => (c :: front, back)

/-! ## Whole texts -/

/-- The parts in order with `mark` between neighbours. -/
def join (mark : String) : List String → String
  | [] => ""
  | [part] => part
  | part :: next :: parts => part ++ mark ++ join mark (next :: parts)

/-- A whole number in decimal digits, with a minus where it is negative. -/
def ofInt (z : Int) : String :=
  .ofList ((if z < 0 then ['-'] else []) ++ Nat.toDigits 10 z.natAbs)

/-- Whether the text is a non-empty run of letters. -/
def isAlphabetic (s : List Char) : Bool :=
  !s.isEmpty && s.all Char.isAlpha

/-- The text with its capital letters made small. -/
def lower (s : String) : String :=
  s.map Char.toLower

/-- The text up to its first NUL character, which ends every message. -/
def untilNul (s : String) : String :=
  .ofList (before '\x00' s.toList)

/-- The text followed by spaces up to the given count of UTF-8 bytes. -/
def padRight (width : Nat) (s : String) : String :=
  s ++ .ofList (List.replicate (width - s.utf8ByteSize) ' ')

end Text

end Metrology
