import Metrology.Binary64.Arithmetic
import Metrology.Binary64.Numeral

/-!
# Metrology.Binary64.Decimal -- numbers written with a chosen count of digits

Three layouts: *fixed*, a count of places after the point; *scientific*, one digit before the
point, a count of places after it and a power of ten; and *general*, a count of significant digits
in whichever of the two shows the number well, without trailing zeros. All three round the exact
value to the digits they show, a tie going to the even digit.

`shortText` is the general layout with the fewest of fifteen, sixteen or seventeen digits that
reads back as the same number.
-/

namespace Metrology

/- A power of naturals is the core one, whatever else is imported beside this module. -/
attribute [local instance (high)] instPowNat

namespace Binary64

open Magnitude

/-- How the digits of a number are laid out. -/
inductive Layout where
  | fixed (places : Nat)
  | scientific (places : Nat)
  | general (digits : Nat)
deriving DecidableEq

namespace Decimal

/-! ## Digits of a magnitude -/

/-- A positive count of steps is at least ten to this power of units, and less than the next. -/
def leadingExponent (steps : Nat) : Int :=
  if stepsPerUnit ≤ steps then (digitCount (steps / stepsPerUnit) : Int) - 1
  else -(digitCount ((stepsPerUnit - 1) / steps) : Int)

/-- The value in units of `10 ^ -places`, rounded. -/
def scaled (steps : Nat) (places : Int) : Nat :=
  roundDiv (steps * 10 ^ places.toNat) (stepsPerUnit * 10 ^ (-places).toNat)

/-- As many significant digits as asked for, and the power of ten of the first of them. Rounding up
to the next power of ten moves that power; zero has its first digit in the units. -/
def significant (digits steps : Nat) : Nat × Int :=
  if steps = 0 then
    (0, 0)
  else
    let exponent := leadingExponent steps
    let rounded := scaled steps (digits - 1 - exponent)
    if rounded = 10 ^ digits then (10 ^ (digits - 1), exponent + 1) else (rounded, exponent)

/-! ## Texts -/

/-- A whole number in decimal digits, with zeros in front up to the given width. -/
def padded (width n : Nat) : List Char :=
  let digits := Nat.toDigits 10 n
  List.replicate (width - digits.length) '0' ++ digits

/-- The last `places` digits of `n`, all of them written. -/
def fraction (n places : Nat) : List Char :=
  if places = 0 then [] else padded places (n % 10 ^ places)

/-- The digits without the zeros at their end. -/
def withoutTrailingZeros (digits : List Char) : List Char :=
  (digits.reverse.dropWhile fun c => c = '0').reverse

/-- Digits before and after the point, which is left out when nothing follows it. -/
def pointed (whole : Nat) (fraction : List Char) : List Char :=
  Nat.toDigits 10 whole ++ if fraction.isEmpty then [] else '.' :: fraction

/-- A power of ten: `e`, a sign and at least two digits. -/
def exponentMark (exponent : Int) : List Char :=
  'e' :: (if exponent < 0 then '-' else '+') :: padded 2 exponent.natAbs

/-- A magnitude in a layout, unsigned. -/
def magnitudeText (layout : Layout) (steps : Nat) : List Char :=
  match layout with
  | .fixed places =>
    let n := scaled steps places
    pointed (n / 10 ^ places) (fraction n places)
  | .scientific places =>
    let (n, exponent) := significant (places + 1) steps
    pointed (n / 10 ^ places) (fraction n places) ++ exponentMark exponent
  | .general digits =>
    let (n, exponent) := significant digits steps
    if -4 ≤ exponent ∧ exponent < digits then
      let places := (digits - 1 - exponent).toNat
      pointed (n / 10 ^ places) (withoutTrailingZeros (fraction n places))
    else
      let places := digits - 1
      pointed (n / 10 ^ places) (withoutTrailingZeros (fraction n places)) ++ exponentMark exponent

end Decimal

/-- A number in a layout. The sign of a zero is written, and that of a NaN. -/
def written (layout : Layout) : Binary64 → String
  | .nan s => if s then "-nan" else "nan"
  | .infinite s => if s then "-inf" else "inf"
  | .finite s m =>
    .ofList ((if s then ['-'] else []) ++ Decimal.magnitudeText layout m.steps)

/-- Whether all of a text is a numeral whose value is finite and equals `x`. -/
def readsBackAs (x : Binary64) (text : String) : Bool :=
  match Numeral.read? text.toList with
  | some (n, []) => n.value.isFinite && n.value.equals x
  | _ => false

/-- The text with the fewest of 15, 16 or 17 significant digits that reads back as the number;
seventeen digits where none does. -/
def shortText (x : Binary64) : String :=
  let texts := [15, 16, 17].map fun digits => x.written (.general digits)
  (texts.find? x.readsBackAs).getD (x.written (.general 17))

end Binary64

end Metrology
