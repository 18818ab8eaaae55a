import CssTransform.Proofs.Composition
import CssTransform.Proofs.Stylesheet.Visit

/-!
# Values without a known function

A value may hold words, calls of functions that nobody knows, and groups without a name, and still
be readable. Where rejected calls make a conversion fail, and where there is no call at all, such a
value has no conversion, and its declaration is left as it is. But where rejected calls are passed
over, the calls of such a value compose to the identity, and the value is replaced by it.

## Main definitions

* `Value.hasCalls` — a value that can be read and has a call
* `Value.isRecognized` — a value with a call of a known function

## Main results

* `convert_of_not_isRecognized` — the conversion of a value without a known function
* `compile_of_not_isRecognized` — which of the declarations with such a value a compilation leaves
-/

namespace CssTransform

/-! ### Recognised values -/

namespace Value

/-- Whether a value can be read and has a call. -/
def hasCalls (value : List Char) : Bool :=
  match calls value with
  | .ok calls => !calls.isEmpty
  | .error _ => false

/-- Whether a value can be read and has a call of a known function. -/
def isRecognized (value : List Char) : Bool :=
  match calls value with
  | .ok calls => calls.any fun call => call.function?.isSome
  | .error _ => false

end Value

section Unknown

variable {α : Type} [Zero α] [One α] [Neg α] [Add α] [Mul α] {angles : AngleFunctions α}
  {call : Call α} {calls : List (Call α)}

omit [Add α] [Mul α] in
theorem Call.elementary_of_unknown (h : call.function? = none) :
    call.elementary angles = .error (.unknownFunction call.name) := by
  rw [elementary, h]

omit [Add α] [Mul α] in
/-- Calls of unknown functions have no matrices. -/
theorem Call.elementaries_of_unknown (h : ∀ call ∈ calls, call.function? = none) :
    Call.elementaries angles calls = [] := by
  refine List.filterMap_eq_nil_iff.2 fun call hcall => ?_
  rw [elementary_of_unknown (h call hcall)]
  rfl

/-- One call of an unknown function makes a composition fail that gives up on it. -/
theorem compose_abort_of_unknown (h : call.function? = none) :
    compose angles .abort (call :: calls) = .error (.unknownFunction call.name) := by
  rw [compose, List.foldlM_cons,
    Composition.step_abort_of_error Matrix4.identity (Call.elementary_of_unknown h)]
  rfl

end Unknown

/-- **The conversion of a value without a known function**: none, but where rejected calls are
passed over and there is a call, the identity. -/
theorem convert_of_not_isRecognized {value : List Char} (h : Value.isRecognized value = false)
    (policy : InvalidCallPolicy) :
    convert policy value =
      if policy = .skip ∧ Value.hasCalls value = true then
        some (Matrix4.identity : Matrix4 Binary64).text
      else none := by
  rw [Value.isRecognized] at h
  rw [convert, Value.hasCalls]
  cases hcalls : Value.calls value with
  | error e =>
    rw [convert?_of_calls_error hcalls, if_neg fun h => absurd h.2 (by simp)]
  | ok calls =>
    rw [hcalls] at h
    have hunknown : ∀ call ∈ calls, call.function? = none := fun call hcall =>
      Option.not_isSome_iff_eq_none.1 (List.any_eq_false.1 h call hcall)
    rw [convert?_of_calls hcalls]
    cases calls with
    | nil =>
      rw [if_neg fun h => absurd h.2 (by simp)]
      rfl
    | cons call calls =>
      cases policy with
      | skip =>
        rw [compose_skip Binary64.angles (List.cons_ne_nil call calls),
          Call.elementaries_of_unknown hunknown, List.foldl_nil, if_pos ⟨rfl, rfl⟩]
        dsimp only
        rw [if_pos (by decide +kernel)]
      | abort =>
        rw [compose_abort_of_unknown (hunknown call List.mem_cons_self),
          if_neg fun h => absurd h.1 (by decide)]

/-! ### Declarations with such values -/

namespace Stylesheet

variable {convert : List Char → Option (List Char)} {css : List Char} {l : Level}

/-- A declaration whose value has no conversion is left as it is. -/
theorem compiledText_of_convert_eq_none {ps : List Piece} {w : Written} (keepWritten : Bool)
    (h : transformOf? ps = some w) (hconvert : convert w.valueText = none) :
    compiledText convert keepWritten ps = partsText ps ∧ w.isConverted convert = false := by
  constructor
  · rw [compiledText]
    cases hconversion : conversion? convert ps with
    | none => rfl
    | some pair =>
      obtain ⟨w', s⟩ := pair
      obtain ⟨htransform, -, hs⟩ := transformOf?_of_conversion? hconversion
      obtain rfl := Option.some.inj (h.symm.trans htransform)
      rw [hconvert] at hs
      cases hs
  · rw [Written.isConverted, hconvert]
    exact Bool.and_false _

/-- A declaration is counted as unchanged exactly if it is not converted. -/
theorem Splits.unchanged_compile (h : Splits css l) {settings : Settings}
    (henabled : settings.enabled = true) :
    (compile settings css).unchanged = l.transforms.countP fun w =>
      !w.isConverted (CssTransform.convert settings.onInvalid) := by
  rw [compile, if_pos henabled, h.compileWith_eq, List.length_eq_countP_add_countP
    (Written.isConverted (CssTransform.convert settings.onInvalid))]
  simp

/-- **Which values without a known function are left as they are.** Such a value has no conversion,
but where rejected calls are passed over and there is a call, the identity. Without a conversion its
declaration stays as it is written, in every sheet, and is counted as unchanged. -/
theorem compile_of_not_isRecognized (settings : Settings) (henabled : settings.enabled = true) :
    (∀ value, Value.isRecognized value = false →
      CssTransform.convert settings.onInvalid value =
        if settings.onInvalid = .skip ∧ Value.hasCalls value = true then
          some (Matrix4.identity : Matrix4 Binary64).text
        else none) ∧
      ∀ css, (∃ l, Splits css l) ∧ ∀ l, Splits css l →
        (compile settings css).css =
          l.render (compiledText (CssTransform.convert settings.onInvalid) settings.keepWritten) ∧
        (compile settings css).unchanged = l.transforms.countP (fun w =>
          !w.isConverted (CssTransform.convert settings.onInvalid)) ∧
        ∀ ps ∈ l.segments, ∀ w, transformOf? ps = some w → Value.isRecognized w.valueText = false →
          settings.onInvalid = .abort ∨ Value.hasCalls w.valueText = false →
            compiledText (CssTransform.convert settings.onInvalid) settings.keepWritten ps =
                partsText ps ∧
              w.isConverted (CssTransform.convert settings.onInvalid) = false := by
  refine ⟨fun value h => convert_of_not_isRecognized h settings.onInvalid, fun css =>
    ⟨exists_splits css, fun l h => ⟨?_, h.unchanged_compile henabled, ?_⟩⟩⟩
  · rw [compile, if_pos henabled, h.compileWith_eq]
  · intro ps _ w hw hunknown hleft
    refine compiledText_of_convert_eq_none _ hw ?_
    rw [convert_of_not_isRecognized hunknown, if_neg]
    rintro ⟨hskip, hcalls⟩
    rcases hleft with habort | hnone
    · rw [hskip] at habort
      cases habort
    · rw [hcalls] at hnone
      cases hnone

/-- A value that is a single word. -/
theorem compile_of_not_isRecognized_word :
    (default : Settings).enabled = true ∧
      ∃ l, Splits "a{transform:none}".toList l ∧
        (compile default "a{transform:none}".toList).unchanged = l.transforms.countP (fun w =>
          !w.isConverted (CssTransform.convert .skip)) ∧
        ∃ ps ∈ l.segments, ∃ w, transformOf? ps = some w ∧ w.valueText = "none".toList ∧
          Value.isRecognized w.valueText = false ∧ Value.hasCalls w.valueText = false ∧
          compiledText (CssTransform.convert .skip) false ps = partsText ps ∧
          w.isConverted (CssTransform.convert .skip) = false := by
  obtain ⟨⟨l, hl⟩, hall⟩ := (compile_of_not_isRecognized default rfl).2 "a{transform:none}".toList
  obtain ⟨-, hunchanged, hleft⟩ := hall l hl
  have hvisits : (visits "a{transform:none}".toList).filterMap Event.declared? =
      [⟨"transform".toList, "none".toList, []⟩] := by
    decide +kernel
  rw [hl.declared_visits] at hvisits
  obtain ⟨w, hw, hvisit⟩ := List.mem_map.1 (hvisits ▸ List.mem_singleton_self _)
  obtain ⟨ps, hps, hps'⟩ := List.mem_filterMap.1 hw
  have hvalue : w.valueText = "none".toList := congrArg Visit.value hvisit
  have hunknown : Value.isRecognized w.valueText = false := by
    rw [hvalue]
    decide +kernel
  have hcalls : Value.hasCalls w.valueText = false := by
    rw [hvalue]
    decide +kernel
  exact ⟨rfl, l, hl, hunchanged, ps, hps, w, hps', hvalue, hunknown, hcalls,
    hleft ps hps w hps' hunknown (.inr hcalls)⟩

/-- A value with a call of an unknown function is replaced by the identity. -/
theorem compile_unknown_perspective :
    Value.isRecognized "perspective(500px)".toList = false ∧
      CssTransform.convert .skip "perspective(500px)".toList =
        some "matrix3d(1, 0, 0, 0, 0, 1, 0, 0, 0, 0, 1, 0, 0, 0, 0, 1)".toList ∧
      compile default "a{transform:perspective(500px)}".toList =
        ⟨"a{transform:matrix3d(1, 0, 0, 0, 0, 1, 0, 0, 0, 0, 1, 0, 0, 0, 0, 1)}".toList, 1, 0⟩ := by
  refine ⟨?_, ?_, ?_⟩ <;> decide +kernel

end Stylesheet

end CssTransform
