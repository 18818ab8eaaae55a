import CssTransform.Matrix

/-!
# Elementary matrices

The matrix of each kind of transform function. With row vectors an offset stands in the last row,
so every matrix here is the transpose of the one that style sheets are usually explained with.

Rotations take the sine and the cosine of the angle and skews its tangent, not the angle itself:
which functions compute those is no concern of a matrix.
-/

namespace CssTransform

namespace Matrix4

variable {α : Type} [Zero α] [One α]

/-- Adds an offset. -/
def shift (x y z : α) : Matrix4 α where
  x := ⟨1, 0, 0, 0⟩
  y := ⟨0, 1, 0, 0⟩
  z := ⟨0, 0, 1, 0⟩
  w := ⟨x, y, z, 1⟩

/-- Multiplies each coordinate by its factor. -/
def scaling (x y z : α) : Matrix4 α where
  x := ⟨x, 0, 0, 0⟩
  y := ⟨0, y, 0, 0⟩
  z := ⟨0, 0, z, 0⟩
  w := ⟨0, 0, 0, 1⟩

/-- Turns `y` toward `z`. -/
def rotationX [Neg α] (sin cos : α) : Matrix4 α where
  x := ⟨1, 0, 0, 0⟩
  y := ⟨0, cos, sin, 0⟩
  z := ⟨0, -sin, cos, 0⟩
  w := ⟨0, 0, 0, 1⟩

/-- Turns `z` toward `x`. -/
def rotationY [Neg α] (sin cos : α) : Matrix4 α where
  x := ⟨cos, 0, -sin, 0⟩
  y := ⟨0, 1, 0, 0⟩
  z := ⟨sin, 0, cos, 0⟩
  w := ⟨0, 0, 0, 1⟩

/-- Turns `x` toward `y`. -/
def rotationZ [Neg α] (sin cos : α) : Matrix4 α where
  x := ⟨cos, sin, 0, 0⟩
  y := ⟨-sin, cos, 0, 0⟩
  z := ⟨0, 0, 1, 0⟩
  w := ⟨0, 0, 0, 1⟩

/-- Shifts `x` by `tan` times `y`. -/
def skewX (tan : α) : Matrix4 α where
  x := ⟨1, 0, 0, 0⟩
  y := ⟨tan, 1, 0, 0⟩
  z := ⟨0, 0, 1, 0⟩
  w := ⟨0, 0, 0, 1⟩

/-- Shifts `y` by `tan` times `x`. -/
def skewY (tan : α) : Matrix4 α where
  x := ⟨1, tan, 0, 0⟩
  y := ⟨0, 1, 0, 0⟩
  z := ⟨0, 0, 1, 0⟩
  w := ⟨0, 0, 0, 1⟩

/-- The affine map of the plane that takes the unit vectors to `(a, b)` and `(c, d)` and the origin
to `(e, f)`. -/
def planar (a b c d e f : α) : Matrix4 α where
  x := ⟨a, b, 0, 0⟩
  y := ⟨c, d, 0, 0⟩
  z := ⟨0, 0, 1, 0⟩
  w := ⟨e, f, 0, 1⟩

end Matrix4

end CssTransform
