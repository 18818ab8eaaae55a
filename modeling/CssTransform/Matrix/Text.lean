import CssTransform.Matrix
import CssTransform.Numeric.Binary64.Shortest

/-!
# The text of a matrix

A matrix is written as a call of `matrix3d` with its entries row after row. Entries are rounded to
six places and written with no more digits than it takes to read the rounded number back.

## Which choice is load-bearing

Rounding goes through a product with a million and a quotient by it, both rounded. Once the product
reaches `2 ^ 53` it has no places left to round, and the number is written as it is: so a large
number is never changed, and one that overflows in the product does not become infinite.

## Main definitions

* `Binary64.toSixPlaces` — the number that is written for an entry
* `Binary64.entryText` — the text of an entry
* `Matrix4.text` — the text of a matrix
-/

namespace CssTransform

namespace Binary64

/-- Numbers of lesser magnitude are written as zero: `10 ^ (-10)`. -/
def negligible : Binary64 := Decimal.toBinary64 false ⟨1, -10⟩

/-- The factor that brings six places before the point. -/
def million : Binary64 := ofNat false 1000000

/-- The magnitude from which every number is whole: `2 ^ 53`. -/
def allWhole : Binary64 := ofNat false 9007199254740992

/-- A number rounded to six places, a half away from zero. -/
def toSixPlaces (x : Binary64) : Binary64 :=
  let scaled := x * million
  if scaled.absLt allWhole then scaled.roundHalfAway / million else x

/-- The text of an entry. A number that is zero, or rounds to it, is written without a sign. -/
def entryText (x : Binary64) : List Char :=
  if x.absLt negligible ∨ x.toSixPlaces.isZero then ['0'] else x.toSixPlaces.plainText

end Binary64

namespace Matrix4

/-- The text of a matrix. -/
def text (m : Matrix4 Binary64) : List Char :=
  "matrix3d(".toList ++ (", ".toList).intercalate (m.toList.map Binary64.entryText) ++ [')']

end Matrix4

end CssTransform
