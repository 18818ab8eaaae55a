import CssTransform.Call
import CssTransform.Matrix.Elementary

/-!
# The elementary matrix of a call

Missing arguments take the default of their function. Only `matrix` and `matrix3d` insist on the
number of their arguments; there an argument without a value reads as zero.

## Main definitions

* `AngleFunctions` — what the angle of a call is put through
* `Rejection` — why a call has no matrix
* `Call.elementary` — the matrix of a call
-/

namespace CssTransform

variable {α : Type}

/-- The functions of angles. The angle of a call is in degrees. -/
structure AngleFunctions (α : Type) where
  /-- From degrees to radians. -/
  radians : α → α
  sin : α → α
  cos : α → α
  tan : α → α

/-- Why a call has no matrix. -/
inductive Rejection where
  | unknownFunction (name : List Char)
  | arity (function : TransformFunction) (expected found : Nat)
deriving DecidableEq

namespace Rejection

/-- The wording of a rejection. -/
def message : Rejection → List Char
  | unknownFunction name => "unknown transform function: ".toList ++ name
  | arity function expected found =>
    function.name ++ "() expects ".toList ++ (toString expected).toList ++ " values, got ".toList ++
      (toString found).toList

end Rejection

namespace Call

/-- The arguments with zeros for those that have no value. -/
def argsOrZero [Zero α] (call : Call α) : List α := call.args.map (·.getD 0)

/-- The matrix of a call of `matrix`: six arguments. -/
def planar [Zero α] [One α] (call : Call α) : Except Rejection (Matrix4 α) :=
  match call.argsOrZero with
  | [a, b, c, d, e, f] => .ok (.planar a b c d e f)
  | args => .error (.arity .matrix 6 args.length)

/-- The matrix of a call of `matrix3d`: sixteen arguments, row after row. -/
def spatial [Zero α] [One α] (call : Call α) : Except Rejection (Matrix4 α) :=
  match Matrix4.ofList? call.argsOrZero with
  | some m => .ok m
  | none => .error (.arity .matrix3d 16 call.args.length)

/-- The matrix of a call. -/
def elementary [Zero α] [One α] [Neg α] (angles : AngleFunctions α) (call : Call α) :
    Except Rejection (Matrix4 α) :=
  let angle := angles.radians (call.arg 0 0)
  match call.function? with
  | some .translateX => .ok (.shift (call.arg 0 0) 0 0)
  | some .translateY => .ok (.shift 0 (call.arg 0 0) 0)
  | some .translateZ => .ok (.shift 0 0 (call.arg 0 0))
  | some .translate => .ok (.shift (call.arg 0 0) (call.arg 1 0) 0)
  | some .translate3d => .ok (.shift (call.arg 0 0) (call.arg 1 0) (call.arg 2 0))
  | some .scaleX => .ok (.scaling (call.arg 0 1) 1 1)
  | some .scaleY => .ok (.scaling 1 (call.arg 0 1) 1)
  | some .scaleZ => .ok (.scaling 1 1 (call.arg 0 1))
  | some .scale => .ok (.scaling (call.arg 0 1) (call.arg 1 (call.arg 0 1)) 1)
  | some .scale3d => .ok (.scaling (call.arg 0 1) (call.arg 1 1) (call.arg 2 1))
  | some .rotateX => .ok (.rotationX (angles.sin angle) (angles.cos angle))
  | some .rotateY => .ok (.rotationY (angles.sin angle) (angles.cos angle))
  | some .rotateZ => .ok (.rotationZ (angles.sin angle) (angles.cos angle))
  | some .skewX => .ok (.skewX (angles.tan angle))
  | some .skewY => .ok (.skewY (angles.tan angle))
  | some .matrix => call.planar
  | some .matrix3d => call.spatial
  | none => .error (.unknownFunction call.name)

end Call

end CssTransform
