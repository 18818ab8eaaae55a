import CssTransform.Call.Elementary

/-!
# Composition of calls

The matrices of a list of calls are multiplied in the order in which the calls are written, from
the identity on, so that the function written first acts first. A policy says what a call without a
matrix means for the whole.

## Main definitions

* `InvalidCallPolicy` — pass over a rejected call, or give up
* `Composition.step` — one call onto what has been composed so far
* `compose` — the matrix of a list of calls; the empty list has none

## Main results

* `Composition.step_cases` — everything that one call can do to what has been composed
* `Composition.foldlM_of_compose` — a composed matrix is what the steps end in
-/

namespace CssTransform

/-- What a rejected call means for the composition. -/
inductive InvalidCallPolicy where
  /-- The call contributes nothing. -/
  | skip
  /-- The whole composition fails with the rejection. -/
  | abort
deriving DecidableEq

variable {α : Type} [Zero α] [One α] [Neg α] [Add α] [Mul α]

namespace Composition

/-- One more call onto what has been composed so far. -/
def step (angles : AngleFunctions α) (policy : InvalidCallPolicy) (composed : Matrix4 α)
    (call : Call α) : Except Rejection (Matrix4 α) :=
  match call.elementary angles, policy with
  | .ok m, _ => .ok (composed * m)
  | .error _, .skip => .ok composed
  | .error e, .abort => .error e

variable {angles : AngleFunctions α} {call : Call α}

theorem step_of_ok {m : Matrix4 α} (policy : InvalidCallPolicy) (composed : Matrix4 α)
    (h : call.elementary angles = .ok m) : step angles policy composed call = .ok (composed * m) := by
  unfold step
  rw [h]

theorem step_skip_of_error {e : Rejection} (composed : Matrix4 α)
    (h : call.elementary angles = .error e) : step angles .skip composed call = .ok composed := by
  unfold step
  rw [h]

theorem step_abort_of_error {e : Rejection} (composed : Matrix4 α)
    (h : call.elementary angles = .error e) : step angles .abort composed call = .error e := by
  unfold step
  rw [h]

/-- Everything that one call can do to what has been composed. -/
theorem step_cases {policy : InvalidCallPolicy} {composed composed' : Matrix4 α}
    (h : step angles policy composed call = .ok composed') :
    (∃ m, call.elementary angles = .ok m ∧ composed' = composed * m) ∨
      ∃ e, call.elementary angles = .error e ∧ policy = .skip ∧ composed' = composed := by
  cases helementary : call.elementary angles with
  | ok m =>
    rw [step_of_ok policy composed helementary] at h
    cases h
    exact .inl ⟨m, rfl, rfl⟩
  | error e =>
    cases policy with
    | skip =>
      rw [step_skip_of_error composed helementary] at h
      cases h
      exact .inr ⟨e, rfl, rfl, rfl⟩
    | abort =>
      rw [step_abort_of_error composed helementary] at h
      cases h

/-- The first call of several, and the others behind it. -/
theorem exists_of_foldlM_cons {policy : InvalidCallPolicy} {calls : List (Call α)}
    {composed composed' : Matrix4 α}
    (h : (call :: calls).foldlM (step angles policy) composed = .ok composed') :
    ∃ next, step angles policy composed call = .ok next ∧
      calls.foldlM (step angles policy) next = .ok composed' := by
  rw [List.foldlM_cons] at h
  cases hstep : step angles policy composed call with
  | error e =>
    rw [hstep] at h
    cases h
  | ok next =>
    rw [hstep] at h
    exact ⟨next, rfl, h⟩

end Composition

/-- The composition of calls in the order written. -/
def compose (angles : AngleFunctions α) (policy : InvalidCallPolicy) :
    List (Call α) → Except Rejection (Option (Matrix4 α))
  | [] => .ok none
  | call :: calls =>
    ((call :: calls).foldlM (Composition.step angles policy) Matrix4.identity).map some

theorem Composition.foldlM_of_compose {angles : AngleFunctions α} {policy : InvalidCallPolicy}
    {calls : List (Call α)} {composed : Matrix4 α}
    (h : compose angles policy calls = .ok (some composed)) :
    calls.foldlM (step angles policy) Matrix4.identity = .ok composed := by
  cases calls with
  | nil => cases h
  | cons call calls =>
    rw [compose] at h
    cases hfold : (call :: calls).foldlM (step angles policy) Matrix4.identity with
    | error e =>
      rw [hfold] at h
      cases h
    | ok m =>
      rw [hfold] at h
      cases h
      rfl

end CssTransform
