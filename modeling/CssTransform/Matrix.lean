/-!
# Row vectors and four by four matrices

A transform acts on a row vector from the right, so the rows of a matrix are what it makes of the
four unit vectors, and the product of matrices acts from left to right. Both are defined through
the one action `Vector4.apply`.

## Which choice is load-bearing

Numbers are any type with zero, one, sum, product and negation. The order in which a product's
entry is summed is fixed here, `((x + y) + z) + w` with no starting zero, because with rounded
numbers another order gives another entry, and a starting zero would turn `-0` into `0`.

## Main definitions

* `Vector4`, `Matrix4` — row vectors, and matrices as four rows
* `Vector4.apply` — a row vector times a matrix
* `Matrix4.mul`, `Matrix4.identity`
* `Matrix4.toList`, `Matrix4.ofList?` — the sixteen entries, row after row

## Main results

* `Matrix4.toList_length`, `Matrix4.ofList?_toList`
-/

namespace CssTransform

/-- A row vector. -/
structure Vector4 (α : Type) where
  x : α
  y : α
  z : α
  w : α
deriving DecidableEq

/-- A matrix, given by its rows. -/
structure Matrix4 (α : Type) where
  x : Vector4 α
  y : Vector4 α
  z : Vector4 α
  w : Vector4 α
deriving DecidableEq

variable {α : Type}

namespace Vector4

/-- A row vector times a matrix. -/
def apply [Add α] [Mul α] (v : Vector4 α) (m : Matrix4 α) : Vector4 α where
  x := v.x * m.x.x + v.y * m.y.x + v.z * m.z.x + v.w * m.w.x
  y := v.x * m.x.y + v.y * m.y.y + v.z * m.z.y + v.w * m.w.y
  z := v.x * m.x.z + v.y * m.y.z + v.z * m.z.z + v.w * m.w.z
  w := v.x * m.x.w + v.y * m.y.w + v.z * m.z.w + v.w * m.w.w

/-- The coordinates of a row vector. -/
def toList (v : Vector4 α) : List α := [v.x, v.y, v.z, v.w]

@[simp] theorem toList_length (v : Vector4 α) : v.toList.length = 4 := rfl

end Vector4

namespace Matrix4

/-- The matrix that leaves every vector as it is. -/
def identity [Zero α] [One α] : Matrix4 α where
  x := ⟨1, 0, 0, 0⟩
  y := ⟨0, 1, 0, 0⟩
  z := ⟨0, 0, 1, 0⟩
  w := ⟨0, 0, 0, 1⟩

/-- The product: first the left matrix acts, then the right one. -/
def mul [Add α] [Mul α] (a b : Matrix4 α) : Matrix4 α where
  x := a.x.apply b
  y := a.y.apply b
  z := a.z.apply b
  w := a.w.apply b

instance [Add α] [Mul α] : Mul (Matrix4 α) := ⟨mul⟩

/-- The entries, row after row. -/
def toList (m : Matrix4 α) : List α := m.x.toList ++ m.y.toList ++ m.z.toList ++ m.w.toList

@[simp] theorem toList_length (m : Matrix4 α) : m.toList.length = 16 := rfl

/-- The matrix with the given entries, row after row. -/
def ofList? : List α → Option (Matrix4 α)
  | [xx, xy, xz, xw, yx, yy, yz, yw, zx, zy, zz, zw, wx, wy, wz, ww] =>
    some ⟨⟨xx, xy, xz, xw⟩, ⟨yx, yy, yz, yw⟩, ⟨zx, zy, zz, zw⟩, ⟨wx, wy, wz, ww⟩⟩
  | _ => none

@[simp] theorem ofList?_toList (m : Matrix4 α) : ofList? m.toList = some m := rfl

end Matrix4

end CssTransform
