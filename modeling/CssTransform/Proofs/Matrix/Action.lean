import CssTransform.Matrix.Elementary
import Mathlib.Algebra.Ring.Defs
import Mathlib.Tactic.Ring

/-!
# What matrices do to row vectors

With exact numbers, from any commutative ring, a product of matrices acts like its factors one after
the other, the left one first, and the identity leaves every vector as it is. Each elementary matrix
acts as its name says.

## Main results

* `Vector4.apply_mul`, `Vector4.apply_identity` — products and the identity
* `Vector4.apply_shift` and the lemmas after it — the elementary matrices
-/

namespace CssTransform

namespace Vector4

variable {α : Type} [CommRing α] (p : Vector4 α)

/-- A product acts from left to right. -/
theorem apply_mul (a b : Matrix4 α) : p.apply (a * b) = (p.apply a).apply b := by
  show p.apply (a.mul b) = _
  simp only [apply, Matrix4.mul, mk.injEq]
  refine ⟨?_, ?_, ?_, ?_⟩ <;> ring

@[simp] theorem apply_identity : p.apply Matrix4.identity = p := by
  simp [apply, Matrix4.identity]

@[simp] theorem apply_shift (a b c : α) :
    p.apply (.shift a b c) = ⟨p.x + a * p.w, p.y + b * p.w, p.z + c * p.w, p.w⟩ := by
  simp [apply, Matrix4.shift, mul_comm p.w]

@[simp] theorem apply_scaling (a b c : α) :
    p.apply (.scaling a b c) = ⟨p.x * a, p.y * b, p.z * c, p.w⟩ := by
  simp [apply, Matrix4.scaling]

@[simp] theorem apply_rotationX (sin cos : α) :
    p.apply (.rotationX sin cos) =
      ⟨p.x, p.y * cos - p.z * sin, p.y * sin + p.z * cos, p.w⟩ := by
  simp [apply, Matrix4.rotationX, sub_eq_add_neg]

@[simp] theorem apply_rotationY (sin cos : α) :
    p.apply (.rotationY sin cos) =
      ⟨p.x * cos + p.z * sin, p.y, p.z * cos - p.x * sin, p.w⟩ := by
  simp [apply, Matrix4.rotationY, sub_eq_neg_add]

@[simp] theorem apply_rotationZ (sin cos : α) :
    p.apply (.rotationZ sin cos) =
      ⟨p.x * cos - p.y * sin, p.x * sin + p.y * cos, p.z, p.w⟩ := by
  simp [apply, Matrix4.rotationZ, sub_eq_add_neg]

@[simp] theorem apply_skewX (tan : α) :
    p.apply (.skewX tan) = ⟨p.x + p.y * tan, p.y, p.z, p.w⟩ := by
  simp [apply, Matrix4.skewX]

@[simp] theorem apply_skewY (tan : α) :
    p.apply (.skewY tan) = ⟨p.x, p.y + p.x * tan, p.z, p.w⟩ := by
  simp [apply, Matrix4.skewY, add_comm]

@[simp] theorem apply_planar (a b c d e f : α) :
    p.apply (.planar a b c d e f) =
      ⟨a * p.x + c * p.y + e * p.w, b * p.x + d * p.y + f * p.w, p.z, p.w⟩ := by
  simp [apply, Matrix4.planar, mul_comm]

end Vector4

end CssTransform
