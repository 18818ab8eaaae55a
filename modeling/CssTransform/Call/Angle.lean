import CssTransform.Call.Elementary
import CssTransform.Numeric.Binary64.Trig

/-!
# Angles in binary64 numbers

## Main definitions

* `Binary64.toRadians` — an angle in degrees, in radians
* `Binary64.angles` — the angle functions that calls are converted with
-/

namespace CssTransform

namespace Binary64

/-- The binary64 number nearest to half the circumference of the unit circle. -/
def pi : Binary64 := ofBits 0x400921fb54442d18

/-- One degree in radians. The quotient is rounded before any angle is multiplied by it. -/
def radiansPerDegree : Binary64 := pi / ofNat false 180

/-- An angle in degrees, in radians. -/
def toRadians (degrees : Binary64) : Binary64 := degrees * radiansPerDegree

/-- The angle functions of binary64 numbers. -/
def angles : AngleFunctions Binary64 where
  radians := toRadians
  sin := sin
  cos := cos
  tan := tan

end Binary64

end CssTransform
