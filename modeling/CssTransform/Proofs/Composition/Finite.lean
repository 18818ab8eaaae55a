import CssTransform.Proofs.Conversion
import CssTransform.Proofs.Matrix.Product
import Mathlib.Data.List.Infix

/-!
# Overflow on the way

A conversion looks at the composed matrix once, at the end. Nothing that stopped being finite on the
way can have escaped it: an entry that is not finite in what has been composed so far spoils its row
in every later product, and one in the matrix of a call spoils its column. So the composed matrix is
finite only if every matrix that was used, and every product on the way, is.

## Which choice is load-bearing

Zero times infinity is not-a-number, not zero. That is what keeps a later factor of zero from washing
an overflow out, and it is all that is used of the arithmetic.

## Main definitions

* `Composition.PassesThrough` — the matrices that have been composed at some point of a composition

## Main results

* `Composition.isFinite_of_foldlM` — what a finite composed matrix says about the way to it
* `convert?_eq_nonFinite_iff` — a conversion reports every overflow on the way, and nothing else
-/

namespace CssTransform

/-! ### The second factor of a finite product -/

/-- A row with a finite product needs a finite matrix: each coordinate goes down one column. -/
theorem Vector4.isFinite_of_isFinite_apply {v : Vector4 Binary64} {m : Matrix4 Binary64}
    (h : (v.apply m).IsFinite) : m.IsFinite := by
  obtain ⟨-, hxx, hyx, hzx, hwx⟩ := isFinite_of_sum h.x
  obtain ⟨-, hxy, hyy, hzy, hwy⟩ := isFinite_of_sum h.y
  obtain ⟨-, hxz, hyz, hzz, hwz⟩ := isFinite_of_sum h.z
  obtain ⟨-, hxw, hyw, hzw, hww⟩ := isFinite_of_sum h.w
  exact ⟨⟨hxx, hxy, hxz, hxw⟩, ⟨hyx, hyy, hyz, hyw⟩, ⟨hzx, hzy, hzz, hzw⟩, ⟨hwx, hwy, hwz, hww⟩⟩

/-- Both factors of a finite product are finite. -/
theorem Matrix4.IsFinite.of_mul {p m : Matrix4 Binary64} (h : (p * m).IsFinite) :
    p.IsFinite ∧ m.IsFinite :=
  ⟨Matrix4.isFinite_of_mul h, Vector4.isFinite_of_isFinite_apply h.x⟩

theorem Matrix4.not_isFinite_iff {m : Matrix4 Binary64} :
    ¬m.IsFinite ↔ ∃ x ∈ m.toList, x.isFinite = false := by
  rw [Matrix4.isFinite_iff, Bool.not_eq_true, List.all_eq_false]
  simp only [Bool.not_eq_true]

/-! ### Compositions -/

namespace Composition

section

variable {α : Type} [Zero α] [One α] [Neg α] [Add α] [Mul α]

/-- What has been composed behind the first few calls of a list, from none to all of them. -/
def PassesThrough (angles : AngleFunctions α) (policy : InvalidCallPolicy) (calls : List (Call α))
    (p : Matrix4 α) : Prop :=
  ∃ front, front <+: calls ∧ front.foldlM (step angles policy) Matrix4.identity = .ok p

end

variable {angles : AngleFunctions Binary64} {policy : InvalidCallPolicy}
  {call : Call Binary64} {calls : List (Call Binary64)} {composed composed' : Matrix4 Binary64}

/-- One call: both what was composed before it and its matrix, if it has one, are finite. -/
theorem isFinite_of_step (h : step angles policy composed call = .ok composed')
    (hfinite : composed'.IsFinite) :
    composed.IsFinite ∧ ∀ m, call.elementary angles = .ok m → m.IsFinite := by
  obtain ⟨m, helementary, rfl⟩ | ⟨e, helementary, -, rfl⟩ := step_cases h
  · obtain ⟨hcomposed, hm⟩ := hfinite.of_mul
    refine ⟨hcomposed, fun m' hm' => ?_⟩
    obtain rfl : m = m' := Except.ok.inj (helementary.symm.trans hm')
    exact hm
  · refine ⟨hfinite, fun m hm => ?_⟩
    rw [helementary] at hm
    cases hm

/-- **Any number of calls**: what was composed before them and all their matrices are finite. -/
theorem isFinite_of_foldlM (h : calls.foldlM (step angles policy) composed = .ok composed')
    (hfinite : composed'.IsFinite) :
    composed.IsFinite ∧ ∀ call ∈ calls, ∀ m, call.elementary angles = .ok m → m.IsFinite := by
  induction calls generalizing composed with
  | nil =>
    cases h
    exact ⟨hfinite, fun call hcall => absurd hcall List.not_mem_nil⟩
  | cons call calls ih =>
    obtain ⟨next, hstep, hrest⟩ := exists_of_foldlM_cons h
    obtain ⟨hnext, hcalls⟩ := ih hrest
    obtain ⟨hcomposed, hcall⟩ := isFinite_of_step hstep hnext
    exact ⟨hcomposed, List.forall_mem_cons.2 ⟨hcall, hcalls⟩⟩

/-- A composition with a finite result passes through finite matrices only. -/
theorem PassesThrough.isFinite {p : Matrix4 Binary64} (hp : PassesThrough angles policy calls p)
    (h : calls.foldlM (step angles policy) Matrix4.identity = .ok composed)
    (hfinite : composed.IsFinite) : p.IsFinite := by
  obtain ⟨front, ⟨back, rfl⟩, hfront⟩ := hp
  rw [List.foldlM_append, hfront] at h
  exact (isFinite_of_foldlM h hfinite).1

/-- A composition ends in the last matrix that it passes through. -/
theorem passesThrough_composed (h : compose angles policy calls = .ok (some composed)) :
    PassesThrough angles policy calls composed :=
  ⟨calls, List.prefix_refl calls, foldlM_of_compose h⟩

/-- The composed matrix is finite exactly if every matrix that was used, and every one that was
passed through, is. -/
theorem isFinite_iff (h : compose angles policy calls = .ok (some composed)) :
    composed.IsFinite ↔
      (∀ call ∈ calls, ∀ m, call.elementary angles = .ok m → m.IsFinite) ∧
        ∀ p, PassesThrough angles policy calls p → p.IsFinite := by
  constructor
  · intro hfinite
    exact ⟨(isFinite_of_foldlM (foldlM_of_compose h) hfinite).2,
      fun p hp => hp.isFinite (foldlM_of_compose h) hfinite⟩
  · rintro ⟨-, hall⟩
    exact hall composed (passesThrough_composed h)

end Composition

/-! ### Conversions -/

/-- **A conversion reports every overflow on the way, and nothing else.** Where the calls of a value
are composed, the conversion fails for want of finite numbers exactly if an entry of the matrix of
some call, or of what had been composed at some point, is not finite. So a conversion that gives a
text has used and passed through finite matrices only. -/
theorem convert?_eq_nonFinite_iff {policy : InvalidCallPolicy} {value : List Char}
    {calls : List (Call Binary64)} {composed : Matrix4 Binary64}
    (hcalls : Value.calls value = .ok calls)
    (hcompose : compose Binary64.angles policy calls = .ok (some composed)) :
    (convert? policy value = .error .nonFinite ↔
      (∃ call ∈ calls, ∃ m, call.elementary Binary64.angles = .ok m ∧
          ∃ x ∈ m.toList, x.isFinite = false) ∨
        ∃ p, Composition.PassesThrough Binary64.angles policy calls p ∧
          ∃ x ∈ p.toList, x.isFinite = false) ∧
      ((∃ s, convert? policy value = .ok (some s)) ↔
        (∀ call ∈ calls, ∀ m, call.elementary Binary64.angles = .ok m → m.IsFinite) ∧
          ∀ p, Composition.PassesThrough Binary64.angles policy calls p → p.IsFinite) := by
  have hconvert : convert? policy value =
      if composed.toList.all Binary64.isFinite then .ok (some composed.text)
      else .error .nonFinite := by
    rw [convert?_of_calls hcalls, hcompose]
  have hiff := Composition.isFinite_iff hcompose
  have hok : (∃ s, convert? policy value = .ok (some s)) ↔ composed.IsFinite := by
    rw [hconvert, Matrix4.isFinite_iff]
    split_ifs with hall
    · exact iff_of_true ⟨_, rfl⟩ hall
    · refine iff_of_false ?_ hall
      rintro ⟨s, ⟨⟩⟩
  have herror : convert? policy value = .error .nonFinite ↔ ¬composed.IsFinite := by
    rw [hconvert, Matrix4.isFinite_iff]
    split_ifs with hall
    · exact iff_of_false (fun h => by cases h) (not_not.2 hall)
    · exact iff_of_true rfl hall
  refine ⟨?_, hok.trans hiff⟩
  rw [herror, hiff, not_and_or]
  simp only [← Matrix4.not_isFinite_iff, not_forall, exists_prop]

/-- A number whose square is past every finite one. -/
def Binary64.huge : Binary64 := Decimal.toBinary64 false ⟨1, 200⟩

/-- The product of two huge scalings overflows, and a third one by zero does not hide it. -/
theorem convert?_overflow_scale :
    ∃ (calls : List (Call Binary64)) (composed : Matrix4 Binary64),
      Value.calls "scale(1e200) scale(1e200) scale(0)".toList = .ok calls ∧
        compose Binary64.angles .skip calls = .ok (some composed) ∧
        (∃ p, Composition.PassesThrough Binary64.angles .skip calls p ∧
          ∃ x ∈ p.toList, x.isFinite = false) ∧
        convert? .skip "scale(1e200) scale(1e200) scale(0)".toList = .error .nonFinite := by
  have hcalls : Value.calls "scale(1e200) scale(1e200) scale(0)".toList =
      .ok [⟨"scale".toList, [some .huge]⟩, ⟨"scale".toList, [some .huge]⟩,
        ⟨"scale".toList, [some 0]⟩] := by
    decide +kernel
  have hcompose : compose Binary64.angles .skip
      [⟨"scale".toList, [some .huge]⟩, ⟨"scale".toList, [some .huge]⟩,
        ⟨"scale".toList, [some 0]⟩] =
      .ok (some (Matrix4.identity * .scaling .huge .huge 1 * .scaling .huge .huge 1 *
        .scaling 0 0 1)) := by
    decide +kernel
  have hpass : ∃ p, Composition.PassesThrough Binary64.angles .skip
      [⟨"scale".toList, [some .huge]⟩, ⟨"scale".toList, [some .huge]⟩,
        ⟨"scale".toList, [some 0]⟩] p ∧ ∃ x ∈ p.toList, x.isFinite = false := by
    refine ⟨Matrix4.identity * .scaling .huge .huge 1 * .scaling .huge .huge 1,
      ⟨[⟨"scale".toList, [some .huge]⟩, ⟨"scale".toList, [some .huge]⟩],
        ⟨[⟨"scale".toList, [some 0]⟩], rfl⟩, ?_⟩, .infinite false, ?_, rfl⟩
    · decide +kernel
    · decide +kernel
  exact ⟨_, _, hcalls, hcompose, hpass,
    (convert?_eq_nonFinite_iff hcalls hcompose).1.2 (.inr hpass)⟩

end CssTransform
