import CssTransform.Call.Angle
import CssTransform.Composition
import CssTransform.Matrix.Text
import CssTransform.Value

/-!
# Conversion of a value

A value is read into calls, the calls are composed into one matrix, and the matrix is written as a
single call of `matrix3d`. A value without any call has no conversion, which is not a failure.

A matrix is written only if all its entries are finite. One look at the end is enough: an entry
that is not finite never turns finite again in a sum or a product.

## Main definitions

* `Failure` — why a value cannot be converted, with `Failure.message`
* `convert?` — the conversion of a value, or why it fails
* `convert` — the conversion of a value, if there is one
-/

namespace CssTransform

/-- Why a value cannot be converted. -/
inductive Failure where
  | unreadable (value : List Char) (cause : Value.ReadError)
  | rejected (cause : Rejection)
  | nonFinite
deriving DecidableEq

namespace Failure

/-- How much of a value that cannot be read is shown. -/
def shownLength : Nat := 64

/-- The part of a value that is shown. -/
def excerpt (value : List Char) : List Char :=
  if shownLength < value.length then value.take shownLength ++ "...".toList else value

/-- The wording for a value that cannot be read. -/
def unreadableMessage (value cause : List Char) : List Char :=
  "failed to tokenize transform value ".toList ++ Text.quoted (excerpt value) ++ ": ".toList ++
    cause

/-- The wording of a failure. -/
def message : Failure → List Char
  | unreadable value cause => unreadableMessage value cause.message
  | rejected cause => cause.message
  | nonFinite => "composed matrix contains a non-finite value".toList

end Failure

/-- The conversion of a value: `none` if it has no calls. -/
def convert? (policy : InvalidCallPolicy) (value : List Char) :
    Except Failure (Option (List Char)) := do
  let calls ← (Value.calls value).mapError (Failure.unreadable value)
  match ← (compose Binary64.angles policy calls).mapError Failure.rejected with
  | none => return none
  | some m =>
    if m.toList.all Binary64.isFinite then return some m.text else throw Failure.nonFinite

/-- The conversion of a value, if it has one. -/
def convert (policy : InvalidCallPolicy) (value : List Char) : Option (List Char) :=
  match convert? policy value with
  | .ok result => result
  | .error _ => none

end CssTransform
