import Metrology.Binary64.Basic

/-!
# Metrology.Binary64.Numeral -- number texts and what they stand for

A numeral is what a number text says before anything is rounded: NaN, an infinity, or digits with a
power of ten or two. Reading takes the longest numeral at the front of a text and gives back the
rest, so that a caller can ask for a whole text or be content with a prefix of it.

A text may start with white space and a sign. Then stands `nan`, possibly with a name in brackets,
or `inf` or `infinity`, all in any case; or `0x` and hexadecimal digits, scaled by a power of two
after `p`; or decimal digits, scaled by a power of ten after `e`. Digits may contain one point. A
scale without digits is not part of the numeral, nor is a `0x` that no hexadecimal digit follows.

A numeral is in range unless rounding sends it to infinity, or it is below the normal numbers, where
the format has fewer digits, and loses some there. The one bit that follows the 53 of a significand
is not counted as a loss when nothing comes after it.
-/

namespace Metrology

/- A power of naturals is the core one, whatever else is imported beside this module. -/
attribute [local instance (high)] instPowNat

/-- What a number text says, unrounded. -/
inductive Numeral where
  | nan (negative : Bool)
  | infinite (negative : Bool)
  | decimal (negative : Bool) (digits : Nat) (exponent : Int)
  | binary (negative : Bool) (digits : Nat) (exponent : Int)
deriving DecidableEq

namespace Numeral

open Binary64 Magnitude

/-! ## Value and range -/

/-- The nearest binary64 number. -/
def value : Numeral → Binary64
  | .nan s => .nan s
  | .infinite s => .infinite s
  | .decimal s digits e => ofRatio s (decimalRatio digits e).1 (decimalRatio digits e).2
  | .binary s digits e => ofRatio s (binaryRatio digits e).1 (binaryRatio digits e).2

/-- Whether all that `n / d` steps have beyond whole ones is the bit that follows a significand from
the leading bit on, and that bit is at most `places` places behind the whole steps. -/
def guardBitOnly (places n d : Nat) : Bool :=
  let place := precision - (n / d).log2
  n / d != 0 && place ≤ places && n % d * 2 ^ place = d

/-- Whether `n / d` steps are held without overflow and without a loss of precision below the normal
numbers. A quotient is below them when it stays so after rounding to 53 bits of its own. The bit
that follows a significand is no loss by itself, within `places` places behind the whole steps. -/
def ratioInRange (places n d : Nat) : Bool :=
  nearest n d < limit &&
    (nearest n d * d = n || guardBitOnly places n d || !(4 * n < (2 ^ (precision + 1) - 1) * d))

/-- The bits of a decimal numeral are told apart to a quarter of a step. What it has beyond is a
loss, whatever it is; a binary numeral has all its bits. -/
def decimalPlaces : Nat := 2

def inRange : Numeral → Bool
  | .nan _ => true
  | .infinite _ => true
  | .decimal _ digits e =>
    ratioInRange decimalPlaces (decimalRatio digits e).1 (decimalRatio digits e).2
  | .binary _ digits e =>
    ratioInRange precision (binaryRatio digits e).1 (binaryRatio digits e).2

/-! ## Parts of a number text -/

/-- The white space that may stand before a number. -/
def isSpace (c : Char) : Bool :=
  c = ' ' || ('\t' ≤ c && c ≤ '\r')

def isHexDigit (c : Char) : Bool :=
  c.isDigit || ('a' ≤ c.toLower && c.toLower ≤ 'f')

/-- What a digit counts, the letters from `a` on as ten and more. -/
def digitValue (c : Char) : Nat :=
  if c.isDigit then c.toNat - '0'.toNat else c.toLower.toNat - 'a'.toNat + 10

/-- The number that digits write in a radix. -/
def digitsValue (radix : Nat) (digits : List Char) : Nat :=
  digits.foldl (fun n c => radix * n + digitValue c) 0

/-- An optional sign: whether it is a minus, and the rest. -/
def readSign : List Char → Bool × List Char
  | '-' :: s => (true, s)
  | '+' :: s => (false, s)
  | s => (false, s)

/-- The rest of the text after a word in any case, if it starts with that word. -/
def readWord? : List Char → List Char → Option (List Char)
  | [], s => some s
  | _ :: _, [] => none
  | w :: word, c :: s => if c.toLower = w then readWord? word s else none

/-- Digits with at most one point: the digits before it, those after it, and the rest. -/
def readDigits? (isDigit : Char → Bool) (s : List Char) :
    Option (List Char × List Char × List Char) :=
  let whole := s.takeWhile isDigit
  match s.dropWhile isDigit with
  | '.' :: t =>
    let fraction := t.takeWhile isDigit
    if whole.isEmpty && fraction.isEmpty then none
    else some (whole, fraction, t.dropWhile isDigit)
  | rest => if whole.isEmpty then none else some (whole, [], rest)

/-- The scale after `mark`, a signed whole number; zero and the same text where there is none. -/
def readScale (mark : Char) : List Char → Int × List Char
  | [] => (0, [])
  | c :: s =>
    let (negative, t) := readSign s
    let digits := t.takeWhile Char.isDigit
    if c.toLower = mark && !digits.isEmpty then
      let size : Int := digitsValue 10 digits
      (if negative then -size else size, t.dropWhile Char.isDigit)
    else
      (0, c :: s)

/-- The rest after a bracketed name of letters, digits and underscores; the same text where there is
none. -/
def skipName : List Char → List Char
  | '(' :: s =>
    match s.dropWhile fun c => c.isAlphanum || c = '_' with
    | ')' :: t => t
    | _ => '(' :: s
  | s => s

/-! ## Reading -/

def readDecimal? (negative : Bool) (s : List Char) : Option (Numeral × List Char) :=
  (readDigits? Char.isDigit s).map fun (whole, fraction, t) =>
    let (scale, rest) := readScale 'e' t
    (.decimal negative (digitsValue 10 (whole ++ fraction)) (scale - fraction.length), rest)

def readHexadecimal? (negative : Bool) (s : List Char) : Option (Numeral × List Char) := do
  let digits ← readWord? ['0', 'x'] s
  let (whole, fraction, t) ← readDigits? isHexDigit digits
  let (scale, rest) := readScale 'p' t
  some (.binary negative (digitsValue 16 (whole ++ fraction)) (scale - 4 * fraction.length), rest)

/-- An infinity or NaN. -/
def readNamed? (negative : Bool) (s : List Char) : Option (Numeral × List Char) :=
  ((readWord? "infinity".toList s).map fun rest => (.infinite negative, rest)) <|>
  ((readWord? "inf".toList s).map fun rest => (.infinite negative, rest)) <|>
  ((readWord? "nan".toList s).map fun rest => (.nan negative, skipName rest))

/-- The longest numeral at the front of a text, and the rest. -/
def read? (s : List Char) : Option (Numeral × List Char) :=
  let (negative, t) := readSign (s.dropWhile isSpace)
  readNamed? negative t <|> readHexadecimal? negative t <|> readDecimal? negative t

end Numeral

end Metrology
