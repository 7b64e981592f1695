import Metrology.Term

/-!
# Metrology.Units.Basic -- units as sequences of terms

A unit is a sequence of terms, in the order in which it is written. A sequence as read may name a
dimension several times, hold terms that count as absent and hold any number of markers.

*Normal* units name each dimension once, hold no absent term, and hold the marker exactly when no
base dimension stands in the numerator. `collect` gathers repeated dimensions, `tidy` drops absent
terms and settles the marker, and `normalize` does one after the other. Both keep the order in
which the dimensions first appear and the prefixes they first appear with.

Two comparisons are defined: `matching` pairs every term of one sequence with a term of the other,
and `sameDimensions` counts the terms of one that agree with some term of the other.
-/

namespace Metrology

/-- A unit: its terms, in order. -/
abbrev Units := List Term

namespace Units

/-! ## Looking up -/

/-- The first term of a dimension. -/
def find? (units : Units) (d : Dimension) : Option Term :=
  List.find? (fun t => t.dimension = d) units

def mentions (units : Units) (d : Dimension) : Bool :=
  units.any fun t => t.dimension = d

/-- The sum of the exponents of a dimension, from zero and in order. -/
def exponentOf (units : Units) (d : Dimension) : Binary64 :=
  units.foldl (fun total t => if t.dimension = d then total + t.exponent else total) 0

/-- The dimensions mentioned, each once and in the order of dimensions. -/
def dimensions (units : Units) : List Dimension :=
  Dimension.all.filter units.mentions

/-! ## Combining -/

/-- Adds a term to the first term of its dimension, or puts it at the end. -/
def absorb : Units → Term → Units
  | [], t => [t]
  | u :: us, t =>
    if u.dimension = t.dimension then
      { u with exponent := u.exponent + t.exponent } :: us
    else
      u :: absorb us t

/-- Gathers the terms of each dimension into the first of them. -/
def collect (units : Units) : Units :=
  units.foldl absorb []

/-- The terms of `a` and `sign` times those of `b`, gathered by dimension: first the dimensions of
`a`, then those that only `b` has. -/
def combine (a b : Units) (sign : Int) : Units :=
  let left := collect a
  let right := collect b
  left.map (fun t =>
    { t with exponent := t.exponent + Binary64.ofInt sign * exponentOf right t.dimension }) ++
  (right.filter fun t => !mentions left t.dimension).map fun t =>
    { t with exponent := Binary64.ofInt sign * t.exponent }

/-- Every exponent times a factor. -/
def scale (units : Units) (factor : Binary64) : Units :=
  units.map fun t => { t with exponent := t.exponent * factor }

/-! ## Normal units -/

/-- The present terms with one marker: where the first marker stands, else at the end. -/
def tidyMarked : Units → Units
  | [] => [.marker]
  | t :: ts =>
    if t.isReciprocal then .marker :: ts.filter Term.isPresent
    else if t.vanishes then tidyMarked ts
    else t :: tidyMarked ts

/-- Drops the absent terms and settles the marker: none beside a numerator, else exactly one. -/
def tidy (units : Units) : Units :=
  if units.any Term.inNumerator then units.filter Term.isPresent else tidyMarked units

/-- The normal form of a sequence. -/
def normalize (units : Units) : Units :=
  tidy (collect units)

/-! ## Comparing -/

/-- The terms without the first that agrees with `t`, if there is one. -/
def without? (t : Term) : Units → Option Units
  | [] => none
  | u :: us => if u.agrees t then some us else (without? t us).map (u :: ·)

/-- Whether each term of `b`, in order, takes a term of `a` that agrees with it and is still free,
and none of `a` is left over. -/
def matching : Units → Units → Bool
  | a, [] => a.isEmpty
  | a, t :: b =>
    match without? t a with
    | none => false
    | some rest => matching rest b

/-- Whether there are as many terms in both, and as many of `b` agree with some term of `a`. -/
def sameDimensions (a b : Units) : Bool :=
  a.length = b.length && b.countP (fun t => a.any fun u => u.agrees t) = a.length

end Units

end Metrology
