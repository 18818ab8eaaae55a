import CssTransform.Numeric.Binary64.Bits

/-!
# Sine, cosine and tangent

The three functions come from the platform, which promises no exact last digit. They are kept in
this one module, and everything that uses them takes them as a parameter, so that no statement
about matrices rests on their values.

## Main definitions

* `Binary64.throughWord` — a platform function as a function on numbers
* `Binary64.sin`, `Binary64.cos`, `Binary64.tan`
-/

namespace CssTransform

namespace Binary64

/-- A platform function, entered and left through the interchange word. -/
def throughWord (f : Float → Float) (x : Binary64) : Binary64 :=
  ofBits (f (Float.ofBits x.toBits.toUInt64)).toBits.toNat

/-- The sine of an angle in radians. -/
def sin : Binary64 → Binary64 := throughWord Float.sin

/-- The cosine of an angle in radians. -/
def cos : Binary64 → Binary64 := throughWord Float.cos

/-- The tangent of an angle in radians. -/
def tan : Binary64 → Binary64 := throughWord Float.tan

end Binary64

end CssTransform
