import Metrology.Binary64.Basic

/-!
# Metrology.Binary64.Power -- the power function of the machine

Powers are computed by the machine's own function, whose last bit no simple rule fixes. A number
crosses to it and back by its 64 bits. Nothing else in the library leaves the exact arithmetic.
-/

namespace Metrology

namespace Binary64

def toFloat (x : Binary64) : Float := Float.ofBits x.toBits

def ofFloat (x : Float) : Binary64 := ofBits x.toBits

/-- The power `x ^ y` as the machine computes it. -/
def pow (x y : Binary64) : Binary64 := ofFloat (Float.pow x.toFloat y.toFloat)

instance : HPow Binary64 Binary64 Binary64 := ⟨pow⟩

end Binary64

end Metrology
