import CssTransform.Proofs.Conversion
import CssTransform.Proofs.Matrix.Product

/-!
# The product of the calls that have a matrix

A composition begins with the identity, which nobody wrote. Where rejected calls are passed over, a
conversion shows no trace of it: the text is the text of the product of the matrices that are
there, and a composition has an entry that is not finite exactly if that product has.

The composed matrix itself shows the identity in two ways. A zero may have lost its sign, and an
infinite entry of the first matrix turns the zeros above and below it into not-a-number.

## Main definitions

* `Call.elementaries` — the matrices of the calls that have one

## Main results

* `compose_skip` — passing over rejected calls is leaving them out
* `convert?_eq_product` — a conversion as a product without the identity
-/

namespace CssTransform

/-! ### Rejected calls that are passed over -/

section Elementaries

variable {α : Type} [Zero α] [One α] [Neg α] [Add α] [Mul α]

omit [Add α] [Mul α] in
/-- The matrices of the calls that have one, in the order written. -/
def Call.elementaries (angles : AngleFunctions α) (calls : List (Call α)) : List (Matrix4 α) :=
  calls.filterMap fun call => (call.elementary angles).toOption

/-- Passing over rejected calls goes through the matrices of the others. -/
theorem foldlM_step_skip (angles : AngleFunctions α) (calls : List (Call α))
    (composed : Matrix4 α) :
    calls.foldlM (Composition.step angles .skip) composed =
      .ok ((Call.elementaries angles calls).foldl (· * ·) composed) := by
  induction calls generalizing composed with
  | nil => rfl
  | cons call calls ih =>
    rw [List.foldlM_cons, Call.elementaries]
    cases h : call.elementary angles with
    | error e =>
      rw [Composition.step_skip_of_error composed h, List.filterMap_cons_none (by rw [h]; rfl)]
      exact ih composed
    | ok m =>
      rw [Composition.step_of_ok .skip composed h, List.filterMap_cons_some (by rw [h]; rfl),
        List.foldl_cons]
      exact ih (composed * m)

/-- Passing over rejected calls is leaving them out, as long as there is a call at all. -/
theorem compose_skip (angles : AngleFunctions α) {calls : List (Call α)} (h : calls ≠ []) :
    compose angles .skip calls =
      .ok (some ((Call.elementaries angles calls).foldl (· * ·) Matrix4.identity)) := by
  cases calls with
  | nil => exact absurd rfl h
  | cons call calls =>
    rw [compose, foldlM_step_skip]
    rfl

end Elementaries

/-! ### The product -/

open Binary64 (Agrees AgreesWhereFinite)

/-- **A conversion is the text of the product** of the matrices of the calls, from the first of
them on, and fails where an entry of that product is not finite. The composed matrix agrees with
the product where it is finite, and everywhere if the first matrix is finite. -/
theorem convert?_eq_product {value : List Char} {calls : List (Call Binary64)}
    {m : Matrix4 Binary64} {ms : List (Matrix4 Binary64)} (hcalls : Value.calls value = .ok calls)
    (hms : Call.elementaries Binary64.angles calls = m :: ms) :
    (convert? .skip value =
        if (ms.foldl (· * ·) m).toList.all Binary64.isFinite then
          .ok (some (ms.foldl (· * ·) m).text)
        else .error .nonFinite) ∧
      ∃ composed : Matrix4 Binary64,
        compose Binary64.angles .skip calls = .ok (some composed) ∧
        composed.Rel AgreesWhereFinite (ms.foldl (· * ·) m) ∧
        (m.IsFinite → composed.Rel Agrees (ms.foldl (· * ·) m)) := by
  have hne : calls ≠ [] := by
    rintro rfl
    cases hms
  have hcompose := compose_skip Binary64.angles hne
  rw [hms, List.foldl_cons] at hcompose
  -- both products have the same factors from here on, and only their first matrices differ
  have hfollows : (ms.foldl (· * ·) (Matrix4.identity * m)).Follows (ms.foldl (· * ·) m) :=
    Matrix4.follows_foldl (Matrix4.follows_identity_mul m) ms
  refine ⟨?_, _, hcompose, hfollows.entries, fun hm =>
    Matrix4.agrees_foldl (Matrix4.agrees_identity_mul hm) ms⟩
  have hfinite := hfollows.isFinite_iff
  rw [Matrix4.isFinite_iff, Matrix4.isFinite_iff] at hfinite
  rw [convert?_of_calls hcalls, hcompose]
  dsimp only
  by_cases hall : (ms.foldl (· * ·) m).toList.all Binary64.isFinite = true
  · rw [if_pos (hfinite.2 hall), if_pos hall,
      (hfollows.agrees (Matrix4.isFinite_iff.2 (hfinite.2 hall))).text_eq]
  · rw [if_neg (mt hfinite.1 hall), if_neg hall]

/-- A shift and a scaling, with a call between them that has no matrix. -/
theorem convert?_eq_product_translateX :
    ∃ (calls : List (Call Binary64)) (m : Matrix4 Binary64) (ms : List (Matrix4 Binary64)),
      Value.calls "translateX(100px) foo(1) scale(2)".toList = .ok calls ∧
        Call.elementaries Binary64.angles calls = m :: ms ∧
        (convert? .skip "translateX(100px) foo(1) scale(2)".toList =
            if (ms.foldl (· * ·) m).toList.all Binary64.isFinite then
              .ok (some (ms.foldl (· * ·) m).text)
            else .error .nonFinite) ∧
        ∃ composed : Matrix4 Binary64,
          compose Binary64.angles .skip calls = .ok (some composed) ∧
          composed.Rel AgreesWhereFinite (ms.foldl (· * ·) m) ∧
          (m.IsFinite → composed.Rel Agrees (ms.foldl (· * ·) m)) :=
  have hcalls : Value.calls "translateX(100px) foo(1) scale(2)".toList =
      .ok [⟨"translateX".toList, [some (.ofNat false 100)]⟩, ⟨"foo".toList, [some 1]⟩,
        ⟨"scale".toList, [some (.ofNat false 2)]⟩] := by
    decide +kernel
  have hms : Call.elementaries Binary64.angles
      [⟨"translateX".toList, [some (.ofNat false 100)]⟩, ⟨"foo".toList, [some 1]⟩,
        ⟨"scale".toList, [some (.ofNat false 2)]⟩] =
      [.shift (.ofNat false 100) 0 0, .scaling (.ofNat false 2) (.ofNat false 2) 1] := by
    decide +kernel
  ⟨_, _, _, hcalls, hms, convert?_eq_product hcalls hms⟩

/-- The only matrix of this value is infinite in one place and zero below it. There the composed
matrix is not-a-number. -/
theorem compose_infinite_scaleX :
    ∃ (calls : List (Call Binary64)) (m composed : Matrix4 Binary64),
      Value.calls "scaleX(1e400)".toList = .ok calls ∧
        Call.elementaries Binary64.angles calls = [m] ∧
        compose Binary64.angles .skip calls = .ok (some composed) ∧
        m.y.x = 0 ∧ composed.y.x = .nan := by
  refine ⟨[⟨"scaleX".toList, [some (.infinite false)]⟩], .scaling (.infinite false) 1 1,
    Matrix4.identity * .scaling (.infinite false) 1 1, ?_, ?_, ?_, rfl, ?_⟩ <;> decide +kernel

end CssTransform
