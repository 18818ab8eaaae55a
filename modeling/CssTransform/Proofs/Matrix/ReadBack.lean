import CssTransform.Proofs.Conversion

/-!
# A matrix read back from its text

The text of a matrix shows a number for every entry. Reading the text gives one call of `matrix3d`,
and the matrix of that call has the shown numbers in the places of the entries they are shown for:
no entry changes places with another, and no digit that was written is lost.

## Which choice is load-bearing

What is shown for an entry is told by the text itself. Where the text is `0` the number is zero, and
a negative zero and a negligible number come back as that. Everywhere else it is the number whose
digits were written, to the last bit.

## Main definitions

* `Binary64.shown` — the number that the text of an entry shows

## Main results

* `Binary64.plainText_eq_zero_iff` — no other number is written as zero is
* `elementary_text` — the matrix of the call that the text of a matrix is
-/

namespace CssTransform

namespace Binary64

/-- The number that the text of an entry shows. -/
def shown (x : Binary64) : Binary64 := if x.entryText = ['0'] then 0 else x.toSixPlaces

/-- No other number is written as zero is. -/
theorem plainText_eq_zero_iff {x : Binary64} (hx : x.isFinite = true) :
    x.plainText = ['0'] ↔ x = 0 := by
  have hzero : plainText 0 = ['0'] := rfl
  refine ⟨fun h => ?_, fun h => h ▸ hzero⟩
  have hread := Value.leadingNumber_plainText hx
  rw [h, ← hzero, Value.leadingNumber_plainText rfl] at hread
  exact (Option.some.inj hread).symm

/-- What is shown for a finite number is what is written for it. -/
theorem shown_eq_written {x : Binary64} (hx : x.isFinite = true) : x.shown = x.written := by
  have htext : x.entryText = ['0'] ↔ x.written = 0 := by
    rw [entryText_eq, plainText_eq_zero_iff (isFinite_written hx)]
  rw [shown]
  split
  · next h => exact (htext.1 h).symm
  · next h =>
    have hne : x.written ≠ 0 := fun hzero => h (htext.2 hzero)
    rw [written] at hne ⊢
    split
    · next hsmall => exact absurd (if_pos hsmall) hne
    · rfl

end Binary64

/-- **A matrix is read back from its text.** The text is one call of `matrix3d` with sixteen
numbers, and the matrix of that call has in every place the number that is shown there: the number
whose plain text stands for the entry. -/
theorem elementary_text (angles : AngleFunctions Binary64) {m : Matrix4 Binary64}
    (h : ∀ x ∈ m.toList, x.isFinite = true) :
    ∃ call : Call Binary64, Value.calls m.text = .ok [call] ∧ call.function? = some .matrix3d ∧
      call.args.length = 16 ∧ (∀ arg ∈ call.args, arg.isSome = true) ∧
      call.elementary angles = .ok (m.map Binary64.shown) ∧
      ∀ x ∈ m.toList, x.entryText = x.shown.plainText := by
  have hshown : (m.map Binary64.written) = m.map Binary64.shown := by
    have hlist : (m.map Binary64.written).toList = (m.map Binary64.shown).toList := by
      rw [Matrix4.toList_map, Matrix4.toList_map]
      exact List.map_congr_left fun x hx => (Binary64.shown_eq_written (h x hx)).symm
    have hsome := congrArg Matrix4.ofList? hlist
    rw [Matrix4.ofList?_toList, Matrix4.ofList?_toList] at hsome
    exact Option.some.inj hsome
  refine ⟨_, Value.calls_text h, TransformFunction.ofName?_name .matrix3d, rfl, ?_, ?_, ?_⟩
  · intro arg harg
    obtain ⟨x, -, rfl⟩ := List.mem_map.1 harg
    rfl
  · rw [hshown]
    exact Call.elementary_matrix3d angles _
  · intro x hx
    rw [Binary64.shown_eq_written (h x hx)]
    exact x.entryText_eq

/-- A matrix with a negative zero, a negligible number, a number with more than six places and one
that is too large to be rounded. -/
def mixedMatrix : Matrix4 Binary64 where
  x := ⟨Binary64.signedZero true, Decimal.toBinary64 true ⟨1, -11⟩, 0, 0⟩
  y := ⟨0, Decimal.toBinary64 true ⟨33333333, -8⟩, 0, 0⟩
  z := ⟨0, 0, Decimal.toBinary64 false ⟨12345678901123456789, -9⟩, 0⟩
  w := ⟨Decimal.toBinary64 false ⟨1, 300⟩, 0, 0, 1⟩

theorem elementary_text_mixedMatrix :
    (∀ x ∈ mixedMatrix.toList, x.isFinite = true) ∧
      ∃ call : Call Binary64, Value.calls mixedMatrix.text = .ok [call] ∧
        call.function? = some .matrix3d ∧ call.args.length = 16 ∧
        (∀ arg ∈ call.args, arg.isSome = true) ∧
        call.elementary Binary64.angles = .ok (mixedMatrix.map Binary64.shown) ∧
        ∀ x ∈ mixedMatrix.toList, x.entryText = x.shown.plainText :=
  have h : ∀ x ∈ mixedMatrix.toList, x.isFinite = true := by decide +kernel
  ⟨h, elementary_text Binary64.angles h⟩

end CssTransform
