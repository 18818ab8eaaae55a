import CssTransform.Proofs.Composition.Rejection
import CssTransform.Stylesheet

/-!
# Sheets under either policy

A conversion that gives up on rejected calls has no result that the other one does not have: where
it has a result no call was rejected, and then the two are the same. So the edits of a sheet under
the stricter policy are some of the edits under the other one, each at the same place and with the
same text, and what is counted as converted and unchanged adds up to the same number.

## Main results

* `convert_skip_of_abort` — a result of the stricter conversion is one of the other
* `Stylesheet.compile_abort_skip` — compositions and sheets under the two policies
-/

namespace CssTransform

/-! ### Conversions -/

/-- The conversion that gives up on rejected calls, by the first rejection. -/
theorem convert?_abort {value : List Char} {calls : List (Call Binary64)}
    (h : Value.calls value = .ok calls) :
    convert? .abort value =
      match Call.firstRejection? Binary64.angles calls with
      | some e => .error (.rejected e)
      | none => convert? .skip value := by
  rw [convert?_of_calls h, convert?_of_calls h, compose_abort]
  cases Call.firstRejection? Binary64.angles calls <;> rfl

/-- A result of the conversion that gives up on rejected calls is one of the other. -/
theorem convert_skip_of_abort {value s : List Char} (h : convert .abort value = some s) :
    convert .skip value = some s := by
  rw [convert] at h ⊢
  cases hcalls : Value.calls value with
  | error e =>
    rw [convert?_of_calls_error hcalls] at h
    cases h
  | ok calls =>
    rw [convert?_abort hcalls] at h
    cases hrejection : Call.firstRejection? Binary64.angles calls with
    | some e =>
      rw [hrejection] at h
      cases h
    | none =>
      rw [hrejection] at h
      exact h

/-! ### Edits -/

namespace Stylesheet

section Edits

variable {convert convert' : List Char → Option (List Char)} {keepWritten : Bool} {css : List Char}

/-- A conversion with more results makes every edit that one with fewer results makes. -/
theorem Declaration.edit?_of_le (hle : ∀ value s, convert value = some s → convert' value = some s)
    {d : Declaration} {edit : Text.Edit} (h : d.edit? convert keepWritten css = some edit) :
    d.edit? convert' keepWritten css = some edit := by
  simp only [Declaration.edit?, Option.bind_eq_bind, Option.bind_eq_some_iff] at h ⊢
  obtain ⟨value, hvalue, span, hspan, s, hs, hedit⟩ := h
  exact ⟨value, hvalue, span, hspan, s, hle _ s hs, hedit⟩

theorem edits_sublist_of_le (hle : ∀ value s, convert value = some s → convert' value = some s) :
    (edits convert keepWritten css).Sublist (edits convert' keepWritten css) := by
  have hedits : edits convert keepWritten css =
      ((transforms css).filter fun d => (d.edit? convert keepWritten css).isSome).filterMap
        (Declaration.edit? convert' keepWritten css) := by
    rw [edits, List.filterMap_filter]
    refine List.filterMap_congr fun d _ => ?_
    cases h : d.edit? convert keepWritten css with
    | none => rfl
    | some edit => exact (Declaration.edit?_of_le hle h).symm
  rw [hedits]
  exact List.filter_sublist.filterMap _

end Edits

/-- Every `transform` declaration is counted once, as converted or as unchanged. -/
theorem converted_add_unchanged (settings : Settings) (css : List Char) :
    (compile settings css).converted + (compile settings css).unchanged =
      if settings.enabled then (transforms css).length else 0 := by
  rw [compile]
  split_ifs
  · exact Nat.add_sub_cancel' (List.length_filterMap_le _ _)
  · rfl

/-- **The two policies differ by rejected calls only.** A composition that gives up fails exactly
with the rejection of the first call that has no matrix, and is the other composition if there is no
such call. The other one never fails; it composes the accepted calls, or is the identity if all
calls are rejected. So in every sheet what is edited by the stricter compilation is edited by the
other one, at the same place and with the same text, and both count the same declarations. -/
theorem compile_abort_skip :
    (∀ calls : List (Call Binary64),
      (∀ e, compose Binary64.angles .abort calls = .error e ↔
        ∃ front call back, calls = front ++ call :: back ∧
          call.elementary Binary64.angles = .error e ∧
            ∀ c ∈ front, c.isAccepted Binary64.angles = true) ∧
      ((∀ call ∈ calls, call.isAccepted Binary64.angles = true) →
        compose Binary64.angles .abort calls = compose Binary64.angles .skip calls) ∧
      (∀ e, compose Binary64.angles .skip calls ≠ .error e) ∧
      (calls ≠ [] → ∀ policy, compose Binary64.angles .skip calls =
        if calls.filter (Call.isAccepted Binary64.angles) = [] then .ok (some Matrix4.identity)
        else compose Binary64.angles policy (calls.filter (Call.isAccepted Binary64.angles)))) ∧
    ∀ (settings : Settings) (css : List Char),
      (∀ d ∈ transforms css, ∀ edit,
        d.edit? (convert .abort) settings.keepWritten css = some edit →
          d.edit? (convert .skip) settings.keepWritten css = some edit) ∧
      (edits (convert .abort) settings.keepWritten css).Sublist
        (edits (convert .skip) settings.keepWritten css) ∧
      (settings.enabled = true → ∀ policy,
        (compile { settings with onInvalid := policy } css).css =
          Text.applyEdits css (edits (convert policy) settings.keepWritten css)) ∧
      (compile { settings with onInvalid := .abort } css).converted +
          (compile { settings with onInvalid := .abort } css).unchanged =
        (compile { settings with onInvalid := .skip } css).converted +
          (compile { settings with onInvalid := .skip } css).unchanged := by
  have hle : ∀ value s, convert .abort value = some s → convert .skip value = some s :=
    fun value s h => convert_skip_of_abort h
  constructor
  · intro calls
    refine ⟨fun e => ?_, fun hall => compose_eq_skip_of_isAccepted hall .abort,
      compose_skip_ne_error Binary64.angles calls, fun hne => compose_skip_eq_filter _ hne⟩
    rw [compose_abort, ← Call.firstRejection?_eq_some_iff]
    cases Call.firstRejection? Binary64.angles calls with
    | none => exact iff_of_false (compose_skip_ne_error _ calls e) nofun
    | some e' => rw [Except.error.injEq, Option.some.injEq]
  · intro settings css
    refine ⟨fun d _ edit => Declaration.edit?_of_le hle, edits_sublist_of_le hle, ?_, ?_⟩
    · intro henabled policy
      rw [compile, if_pos henabled]
      rfl
    · rw [converted_add_unchanged, converted_add_unchanged]

/-- A call that is rejected in front of one that is not, and a sheet with and without it. -/
theorem compile_abort_skip_foo :
    compose Binary64.angles .abort [⟨"foo".toList, []⟩, ⟨"scaleX".toList, [some 0]⟩] =
        .error (.unknownFunction "foo".toList) ∧
      compose Binary64.angles .skip [⟨"foo".toList, []⟩, ⟨"scaleX".toList, [some 0]⟩] =
        compose Binary64.angles .abort [⟨"scaleX".toList, [some 0]⟩] ∧
      (edits (convert .abort) false "a{transform:scale(2);transform:foo() scale(2)}".toList).length
        = 1 ∧
      (edits (convert .skip) false "a{transform:scale(2);transform:foo() scale(2)}".toList).length
        = 2 ∧
      (edits (convert .abort) false "a{transform:scale(2);transform:foo() scale(2)}".toList).Sublist
        (edits (convert .skip) false "a{transform:scale(2);transform:foo() scale(2)}".toList) := by
  obtain ⟨hcompose, hsheets⟩ := compile_abort_skip
  obtain ⟨habort, -, -, hskip⟩ := hcompose [⟨"foo".toList, []⟩, ⟨"scaleX".toList, [some 0]⟩]
  obtain ⟨-, hsublist, -⟩ := hsheets default "a{transform:scale(2);transform:foo() scale(2)}".toList
  refine ⟨(habort _).2 ⟨[], _, _, rfl, ?_, nofun⟩, (hskip (List.cons_ne_nil _ _) .abort).trans ?_,
    ?_, ?_, hsublist⟩ <;> decide +kernel

end Stylesheet

end CssTransform
