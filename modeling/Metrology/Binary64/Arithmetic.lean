import Metrology.Binary64.Basic

/-!
# Metrology.Binary64.Arithmetic -- sums, products, order and whole numbers

Each operation takes the exact result on counts of steps and rounds it once. Order and equality
look only at the place of a number on the extended line: the zeros share theirs and NaN has none,
so every comparison with NaN is false.

An operation on a NaN passes it on, with its sign. Of two NaNs a sum, a difference and a quotient
pass on the first, and a product the second. An operation that has no result, such as zero times
infinity, gives the negative NaN.

The four ways to a whole number (towards zero, down, up, nearest) differ in how they treat the
steps that a whole number of units leaves over, and keep the sign, also that of a zero.
-/

namespace Metrology

namespace Binary64

open Magnitude

/-! ## Signs and classes -/

def isNaN : Binary64 → Bool
  | .nan _ => true
  | _ => false

def isFinite : Binary64 → Bool
  | .finite .. => true
  | _ => false

def neg : Binary64 → Binary64
  | .nan s => .nan !s
  | .infinite s => .infinite !s
  | .finite s m => .finite (!s) m

/-- The number without its sign. -/
def abs : Binary64 → Binary64
  | .nan _ => .nan false
  | .infinite _ => .infinite false
  | .finite _ m => .finite false m

/-- A magnitude with its sign, in steps. -/
def signedSteps (negative : Bool) (m : Magnitude) : Int :=
  if negative then -(m.steps : Int) else m.steps

/-! ## Sums, products and quotients -/

/-- What an operation without a result gives. -/
def invalid : Binary64 := .nan true

/-- The number nearest to a signed count of steps; `zeroSign` is the sign of an exact zero. -/
def ofSignedSteps (zeroSign : Bool) (z : Int) : Binary64 :=
  ofRatio (if z = 0 then zeroSign else decide (z < 0)) z.natAbs 1

/-- The sum. An exact zero is negative only when both summands are. -/
def add : Binary64 → Binary64 → Binary64
  | .nan s, _ => .nan s
  | _, .nan t => .nan t
  | .infinite s, .infinite t => if s = t then .infinite s else invalid
  | .infinite s, .finite .. => .infinite s
  | .finite .., .infinite t => .infinite t
  | .finite s a, .finite t b => ofSignedSteps (s && t) (signedSteps s a + signedSteps t b)

/-- The difference. A NaN keeps its sign, also on the right. -/
def sub (a b : Binary64) : Binary64 :=
  match b with
  | .nan _ => a.add b
  | _ => a.add b.neg

/-- The product. Zero times infinity is NaN. -/
def mul : Binary64 → Binary64 → Binary64
  | _, .nan t => .nan t
  | .nan s, _ => .nan s
  | .infinite s, .infinite t => .infinite (s ^^ t)
  | .infinite s, .finite t b => if b.steps = 0 then invalid else .infinite (s ^^ t)
  | .finite s a, .infinite t => if a.steps = 0 then invalid else .infinite (s ^^ t)
  | .finite s a, .finite t b => ofRatio (s ^^ t) (a.steps * b.steps) stepsPerUnit

/-- The quotient. By zero it is infinite, except that zero by zero is NaN. -/
def div : Binary64 → Binary64 → Binary64
  | .nan s, _ => .nan s
  | _, .nan t => .nan t
  | .infinite _, .infinite _ => invalid
  | .infinite s, .finite t _ => .infinite (s ^^ t)
  | .finite s _, .infinite t => zero (s ^^ t)
  | .finite s a, .finite t b =>
    if b.steps = 0 then
      if a.steps = 0 then invalid else .infinite (s ^^ t)
    else
      ofRatio (s ^^ t) (a.steps * stepsPerUnit) b.steps

instance : Neg Binary64 := ⟨neg⟩
instance : Add Binary64 := ⟨add⟩
instance : Sub Binary64 := ⟨sub⟩
instance : Mul Binary64 := ⟨mul⟩
instance : Div Binary64 := ⟨div⟩

/-! ## Order and equality -/

/-- The place of a number on the extended line; NaN has none. -/
def place? : Binary64 → Option Int
  | .nan _ => none
  | .infinite s => some (if s then -(limit : Int) else limit)
  | .finite s m => some (signedSteps s m)

/-- Whether both numbers have a place and the places are related. -/
def related (r : Int → Int → Bool) (a b : Binary64) : Bool :=
  match a.place?, b.place? with
  | some x, some y => r x y
  | _, _ => false

def less (a b : Binary64) : Bool := related (fun x y => decide (x < y)) a b

def lessEqual (a b : Binary64) : Bool := related (fun x y => decide (x ≤ y)) a b

/-- Numeric equality: the zeros are equal, and NaN equals nothing. -/
def equals (a b : Binary64) : Bool := related (fun x y => decide (x = y)) a b

/-! ## Whole numbers -/

/-- A whole number of units of the same sign, chosen by `pick` from the whole units of the magnitude
and the steps left over. -/
def toWhole (pick : Bool → Nat → Nat → Nat) : Binary64 → Binary64
  | .nan s => .nan s
  | .infinite s => .infinite s
  | .finite s m =>
    ofRatio s (pick s (m.steps / stepsPerUnit) (m.steps % stepsPerUnit) * stepsPerUnit) 1

def trunc : Binary64 → Binary64 := toWhole fun _ units _ => units

def floor : Binary64 → Binary64 :=
  toWhole fun negative units rest => if negative && rest != 0 then units + 1 else units

def ceil : Binary64 → Binary64 :=
  toWhole fun negative units rest => if !negative && rest != 0 then units + 1 else units

/-- The nearest whole number, a tie going to the even one. -/
def roundEven : Binary64 → Binary64 :=
  toWhole fun _ units rest => roundDiv (units * stepsPerUnit + rest) stepsPerUnit

/-- The nearest whole number, a tie going away from zero. -/
def roundAway : Binary64 → Binary64 :=
  toWhole fun _ units rest => if stepsPerUnit ≤ 2 * rest then units + 1 else units

/-- The whole part as an integer, towards zero; zero for a number that is not finite. -/
def toInt : Binary64 → Int
  | .finite s m =>
    if s then -((m.steps / stepsPerUnit : Nat) : Int) else (m.steps / stepsPerUnit : Nat)
  | _ => 0

end Binary64

end Metrology
