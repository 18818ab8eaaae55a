import CssTransform.Proofs.Conversion
import CssTransform.Proofs.Value.LetterCase

/-!
# Conversion and the case of letters

Two values that are the same in lower case have the same conversion, or both have none, for causes
of the same kind. The case of letters anywhere in a value is of no account: in the name of a
function, in a unit, in the mark of an exponent, or in a name that stands for nothing.

## Which choice is load-bearing

A failure shows parts of the value as it was written, so two failures need not be the same. What
they are compared in is their kind, and with it everything that they do not take from the letters of
the value: the cause, the function and the number of its arguments.

## Main definitions

* `Rejection.foldCase`, `Failure.foldCase` — a failure with what it shows in lower case
* `Failure.kind` — what sort of failure it is

## Main results

* `Call.elementary_foldCase` — the matrix of a call, with its name in lower case
* `convert?_foldCase` — the conversion of a value in lower case
* `convert?_of_foldCase_eq` — values that differ in case only
-/

namespace CssTransform

open TransformFunction (foldCase)

/-! ### Failures -/

/-- A rejection with the name that it shows in lower case. -/
def Rejection.foldCase : Rejection → Rejection
  | unknownFunction name => unknownFunction (TransformFunction.foldCase name)
  | arity function expected found => arity function expected found

namespace Failure

/-- A failure with what it shows of the value in lower case. -/
def foldCase : Failure → Failure
  | unreadable value cause => unreadable (TransformFunction.foldCase value) cause.foldCase
  | rejected cause => rejected cause.foldCase
  | nonFinite => nonFinite

/-- The sorts of failures. -/
inductive Kind where
  /-- The value cannot be read. -/
  | parse
  /-- A call has the name of no function. -/
  | unknownFunction
  /-- A call has not the number of arguments that its function insists on. -/
  | arity
  /-- An entry of the composed matrix is not finite. -/
  | nonFinite
deriving DecidableEq

/-- The sort of a failure. -/
def kind : Failure → Kind
  | unreadable _ _ => .parse
  | rejected (.unknownFunction _) => .unknownFunction
  | rejected (.arity _ _ _) => .arity
  | nonFinite => .nonFinite

theorem kind_foldCase (failure : Failure) : failure.foldCase.kind = failure.kind := by
  cases failure with
  | unreadable value cause => rfl
  | rejected cause => cases cause <;> rfl
  | nonFinite => rfl

end Failure

/-! ### Calls -/

section

variable {α : Type} [Zero α] [One α] [Neg α]

namespace Call

omit [Zero α] [One α] [Neg α] in
theorem function?_foldCase (call : Call α) : call.foldCase.function? = call.function? :=
  TransformFunction.ofName?_congr (foldCase_foldCase call.name)

omit [Neg α] in
theorem planar_foldCase (call : Call α) :
    call.foldCase.planar = call.planar.mapError Rejection.foldCase := by
  have hsame : call.foldCase.planar = call.planar := rfl
  rw [hsame, planar]
  split <;> rfl

omit [Neg α] in
theorem spatial_foldCase (call : Call α) :
    call.foldCase.spatial = call.spatial.mapError Rejection.foldCase := by
  have hsame : call.foldCase.spatial = call.spatial := rfl
  rw [hsame, spatial]
  split <;> rfl

/-- A call has the same matrix with its name in lower case, or is rejected for the same cause. -/
theorem elementary_foldCase (angles : AngleFunctions α) (call : Call α) :
    call.foldCase.elementary angles = (call.elementary angles).mapError Rejection.foldCase := by
  rw [elementary, elementary, function?_foldCase]
  cases call.function? with
  | none => rfl
  | some function =>
    cases function with
    | matrix => exact planar_foldCase call
    | matrix3d => exact spatial_foldCase call
    | _ => rfl

end Call

end

section

variable {α : Type} [Zero α] [One α] [Neg α] [Add α] [Mul α]

theorem Composition.step_foldCase (angles : AngleFunctions α) (policy : InvalidCallPolicy)
    (composed : Matrix4 α) (call : Call α) :
    step angles policy composed call.foldCase =
      (step angles policy composed call).mapError Rejection.foldCase := by
  have hfold := call.elementary_foldCase angles
  cases h : call.elementary angles with
  | ok m =>
    rw [h] at hfold
    rw [step_of_ok policy composed h, step_of_ok policy composed hfold]
    rfl
  | error e =>
    rw [h] at hfold
    cases policy with
    | skip =>
      rw [step_skip_of_error composed h, step_skip_of_error composed hfold]
      rfl
    | abort =>
      rw [step_abort_of_error composed h, step_abort_of_error composed hfold]
      rfl

theorem Composition.foldlM_step_foldCase (angles : AngleFunctions α) (policy : InvalidCallPolicy)
    (calls : List (Call α)) (composed : Matrix4 α) :
    (calls.map Call.foldCase).foldlM (step angles policy) composed =
      (calls.foldlM (step angles policy) composed).mapError Rejection.foldCase := by
  induction calls generalizing composed with
  | nil => rfl
  | cons call calls ih =>
    rw [List.map_cons, List.foldlM_cons, List.foldlM_cons, step_foldCase]
    cases step angles policy composed call with
    | error e => rfl
    | ok next => exact ih next

/-- Calls compose to the same matrix with their names in lower case, or fail with the same call. -/
theorem compose_foldCase (angles : AngleFunctions α) (policy : InvalidCallPolicy)
    (calls : List (Call α)) :
    compose angles policy (calls.map Call.foldCase) =
      (compose angles policy calls).mapError Rejection.foldCase := by
  cases calls with
  | nil => rfl
  | cons call calls =>
    have hfold := Composition.foldlM_step_foldCase angles policy (call :: calls) Matrix4.identity
    rw [List.map_cons] at hfold ⊢
    rw [compose, compose, hfold]
    cases (call :: calls).foldlM (Composition.step angles policy) Matrix4.identity <;> rfl

end

/-! ### Conversions -/

/-- The conversion of a value in lower case is that of the value, and so is its failure. -/
theorem convert?_foldCase (policy : InvalidCallPolicy) (value : List Char) :
    convert? policy (foldCase value) = (convert? policy value).mapError Failure.foldCase := by
  have hfold := Value.calls_foldCase value
  cases hcalls : Value.calls value with
  | error e =>
    rw [hcalls] at hfold
    rw [convert?_of_calls_error hcalls, convert?_of_calls_error hfold]
    rfl
  | ok calls =>
    rw [hcalls] at hfold
    rw [convert?_of_calls hcalls, convert?_of_calls hfold, compose_foldCase]
    rcases compose Binary64.angles policy calls with e | _ | m
    · rfl
    · rfl
    · dsimp only [Except.mapError]
      split_ifs <;> rfl

/-- **Conversion has no regard to the case of ASCII letters.** Two values that are the same in lower
case are converted to the same text, or both have no call, or both fail, for causes of the same kind
that say the same in lower case. -/
theorem convert?_of_foldCase_eq (policy : InvalidCallPolicy) {value value' : List Char}
    (h : foldCase value = foldCase value') :
    match convert? policy value, convert? policy value' with
    | .ok result, .ok result' => result = result'
    | .error failure, .error failure' =>
      failure.kind = failure'.kind ∧ failure.foldCase = failure'.foldCase
    | _, _ => False := by
  have hsame : (convert? policy value).mapError Failure.foldCase =
      (convert? policy value').mapError Failure.foldCase := by
    rw [← convert?_foldCase, h, convert?_foldCase]
  cases hvalue : convert? policy value with
  | ok result =>
    cases hvalue' : convert? policy value' with
    | ok result' =>
      rw [hvalue, hvalue'] at hsame
      exact Except.ok.inj hsame
    | error failure' =>
      rw [hvalue, hvalue'] at hsame
      cases hsame
  | error failure =>
    cases hvalue' : convert? policy value' with
    | ok result' =>
      rw [hvalue, hvalue'] at hsame
      cases hsame
    | error failure' =>
      rw [hvalue, hvalue'] at hsame
      have hfold : failure.foldCase = failure'.foldCase := Except.error.inj hsame
      exact ⟨by rw [← failure.kind_foldCase, hfold, failure'.kind_foldCase], hfold⟩

/-- The name of the function, the mark of the exponent and the unit are in different cases, and the
values have the same conversion. -/
theorem convert?_of_foldCase_eq_translateX :
    foldCase "TRANSLATEX(25E-1PX) Foo".toList = foldCase "translateX(25e-1px) fOO".toList ∧
      convert? .abort "TRANSLATEX(25E-1PX) Foo".toList =
        convert? .abort "translateX(25e-1px) fOO".toList := by
  have h : foldCase "TRANSLATEX(25E-1PX) Foo".toList =
      foldCase "translateX(25e-1px) fOO".toList := by
    decide
  have hvalue : convert? .abort "TRANSLATEX(25E-1PX) Foo".toList =
      .ok (some "matrix3d(1, 0, 0, 0, 0, 1, 0, 0, 0, 0, 1, 0, 2.5, 0, 0, 1)".toList) := by
    decide +kernel
  have hcases := convert?_of_foldCase_eq .abort h
  rw [hvalue] at hcases ⊢
  refine ⟨h, ?_⟩
  cases hvalue' : convert? .abort "translateX(25e-1px) fOO".toList with
  | ok result' =>
    rw [hvalue'] at hcases
    exact congrArg Except.ok hcases
  | error failure' =>
    rw [hvalue'] at hcases
    exact hcases.elim

end CssTransform
