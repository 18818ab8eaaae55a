import CssTransform.Proofs.Composition

/-!
# Rejected calls

Giving up on a rejected call and passing over it are the same composition as long as no call is
rejected. The first rejected call is where they part: one composition ends there with the rejection,
the other goes on as if the call had not been written.

## Main definitions

* `Call.isAccepted` — whether a call has a matrix
* `Call.firstRejection?` — the rejection of the first call without one

## Main results

* `compose_abort` — giving up, by the first rejection
* `compose_skip_eq_filter` — passing over, by the accepted calls
-/

namespace CssTransform

section

variable {α : Type} [Zero α] [One α] [Neg α]

namespace Call

/-- Whether a call has a matrix. -/
def isAccepted (angles : AngleFunctions α) (call : Call α) : Bool := (call.elementary angles).isOk

/-- Why a call has no matrix, if it has none. -/
def rejection? (angles : AngleFunctions α) (call : Call α) : Option Rejection :=
  match call.elementary angles with
  | .ok _ => none
  | .error e => some e

variable {angles : AngleFunctions α} {call : Call α} {calls : List (Call α)} {e : Rejection}

theorem isAccepted_of_ok {m : Matrix4 α} (h : call.elementary angles = .ok m) :
    call.isAccepted angles = true := by
  rw [isAccepted, h]
  rfl

theorem isAccepted_of_error (h : call.elementary angles = .error e) :
    call.isAccepted angles = false := by
  rw [isAccepted, h]
  rfl

theorem rejection?_eq_some_iff :
    call.rejection? angles = some e ↔ call.elementary angles = .error e := by
  rw [rejection?]
  cases call.elementary angles with
  | ok m => exact iff_of_false nofun nofun
  | error e' => rw [Option.some.injEq, Except.error.injEq]

theorem rejection?_eq_none_iff :
    call.rejection? angles = none ↔ call.isAccepted angles = true := by
  rw [rejection?, isAccepted]
  cases call.elementary angles with
  | ok m => exact iff_of_true rfl rfl
  | error e => exact iff_of_false nofun nofun

/-- The rejection of the first call without a matrix. -/
def firstRejection? (angles : AngleFunctions α) (calls : List (Call α)) : Option Rejection :=
  calls.findSome? (rejection? angles)

theorem firstRejection?_eq_none_iff :
    firstRejection? angles calls = none ↔ ∀ call ∈ calls, call.isAccepted angles = true := by
  rw [firstRejection?, List.findSome?_eq_none_iff]
  exact forall₂_congr fun call _ => rejection?_eq_none_iff

/-- The first rejection belongs to a call with accepted calls before it. -/
theorem firstRejection?_eq_some_iff :
    firstRejection? angles calls = some e ↔
      ∃ front call back, calls = front ++ call :: back ∧
        call.elementary angles = .error e ∧ ∀ c ∈ front, c.isAccepted angles = true := by
  rw [firstRejection?, List.findSome?_eq_some_iff]
  simp only [rejection?_eq_some_iff, rejection?_eq_none_iff]

/-- Leaving rejected calls out keeps the matrices of the others. -/
theorem elementaries_filter_isAccepted (angles : AngleFunctions α) (calls : List (Call α)) :
    elementaries angles (calls.filter (isAccepted angles)) = elementaries angles calls := by
  rw [elementaries, elementaries, List.filterMap_filter]
  refine List.filterMap_congr fun call _ => ?_
  cases h : call.elementary angles with
  | ok m => rw [isAccepted_of_ok h, if_pos rfl]
  | error e => rw [isAccepted_of_error h, if_neg Bool.false_ne_true]; rfl

end Call

end

variable {α : Type} [Zero α] [One α] [Neg α] [Add α] [Mul α]

/-- **Giving up on rejected calls** ends with the first rejection, and is passing over them if there
is none. -/
theorem foldlM_step_abort (angles : AngleFunctions α) (calls : List (Call α))
    (composed : Matrix4 α) :
    calls.foldlM (Composition.step angles .abort) composed =
      match Call.firstRejection? angles calls with
      | some e => .error e
      | none => calls.foldlM (Composition.step angles .skip) composed := by
  induction calls generalizing composed with
  | nil => rfl
  | cons call calls ih =>
    rw [List.foldlM_cons, List.foldlM_cons]
    rw [Call.firstRejection?, List.findSome?_cons]
    cases h : call.elementary angles with
    | ok m =>
      rw [Call.rejection?_eq_none_iff.2 (Call.isAccepted_of_ok h),
        Composition.step_of_ok .abort composed h, Composition.step_of_ok .skip composed h]
      exact ih (composed * m)
    | error e =>
      rw [Call.rejection?_eq_some_iff.2 h, Composition.step_abort_of_error composed h]
      rfl

/-- A composition that gives up, by the first rejection. -/
theorem compose_abort (angles : AngleFunctions α) (calls : List (Call α)) :
    compose angles .abort calls =
      match Call.firstRejection? angles calls with
      | some e => .error e
      | none => compose angles .skip calls := by
  cases calls with
  | nil => rfl
  | cons call calls =>
    rw [compose, compose, foldlM_step_abort]
    cases Call.firstRejection? angles (call :: calls) <;> rfl

theorem compose_skip_ne_error (angles : AngleFunctions α) (calls : List (Call α)) (e : Rejection) :
    compose angles .skip calls ≠ .error e := by
  cases calls with
  | nil => exact nofun
  | cons call calls =>
    rw [compose_skip angles (List.cons_ne_nil call calls)]
    exact nofun

/-- Where every call is accepted the policy does not matter. -/
theorem compose_eq_skip_of_isAccepted {angles : AngleFunctions α} {calls : List (Call α)}
    (h : ∀ call ∈ calls, call.isAccepted angles = true) (policy : InvalidCallPolicy) :
    compose angles policy calls = compose angles .skip calls := by
  cases policy with
  | skip => rfl
  | abort => rw [compose_abort, Call.firstRejection?_eq_none_iff.2 h]

/-- **Passing over rejected calls** composes the accepted ones, under either policy, and the
identity if there is none. -/
theorem compose_skip_eq_filter (angles : AngleFunctions α) {calls : List (Call α)}
    (hne : calls ≠ []) (policy : InvalidCallPolicy) :
    compose angles .skip calls =
      if calls.filter (Call.isAccepted angles) = [] then .ok (some Matrix4.identity)
      else compose angles policy (calls.filter (Call.isAccepted angles)) := by
  rw [compose_skip angles hne, ← Call.elementaries_filter_isAccepted]
  split_ifs with hnone
  · rw [hnone]
    rfl
  · rw [compose_eq_skip_of_isAccepted (fun call hcall => (List.mem_filter.1 hcall).2) policy,
      compose_skip angles hnone]

end CssTransform
