import CssTransform.Proofs.Matrix.Identity

/-!
# Numbers up to the sign of a zero

Sums and products cannot tell the two zeros apart but by a zero that they give back. So numbers that
are equal or both zero go on to such numbers in every sum and product, and the same text is written
for them. And a sum or product is finite only if both its operands are.

## Main definitions

* `Binary64.Agrees` — equal, or both zero
* `Binary64.AgreesWhereFinite` — the same, if the first number is finite

## Main results

* `Binary64.Agrees.add`, `Binary64.Agrees.mul_right` — sums and products of such numbers
* `Binary64.Agrees.entryText_eq` — the text that is written for them
* `Binary64.isFinite_of_add`, `Binary64.isFinite_of_mul` — the operands of what is finite
-/

namespace CssTransform

namespace Binary64

variable {x x' y y' z : Binary64}

/-! ### Finite operands -/

/-- Only finite numbers have a finite sum. -/
theorem isFinite_of_add (h : (x + y).isFinite = true) : x.isFinite = true ∧ y.isFinite = true := by
  change (add x y).isFinite = true at h
  cases x with
  | nan => cases h
  | infinite s =>
    cases y with
    | nan => cases h
    | infinite t =>
      rw [add] at h
      split at h <;> cases h
    | finite t n => cases h
  | finite s m =>
    cases y with
    | nan => cases h
    | infinite t => cases h
    | finite t n => exact ⟨rfl, rfl⟩

/-- Only finite numbers have a finite product: also zero times infinity is not-a-number. -/
theorem isFinite_of_mul (h : (x * y).isFinite = true) : x.isFinite = true ∧ y.isFinite = true := by
  change (mul x y).isFinite = true at h
  cases x with
  | nan => cases h
  | infinite s =>
    cases y with
    | nan => cases h
    | infinite t => cases h
    | finite t n =>
      rw [mul] at h
      split at h <;> cases h
  | finite s m =>
    cases y with
    | nan => cases h
    | infinite t =>
      rw [mul] at h
      split at h <;> cases h
    | finite t n => exact ⟨rfl, rfl⟩

/-! ### Agreement -/

/-- Equal, or both zero. -/
def Agrees (x y : Binary64) : Prop := x = y ∨ x.isZero = true ∧ y.isZero = true

/-- Not finite at first, or in agreement. -/
def AgreesWhereFinite (x y : Binary64) : Prop := x.isFinite = true → x.Agrees y

theorem eq_signedZero_of_isZero (h : x.isZero = true) : ∃ s, x = signedZero s := by
  cases x with
  | nan => cases h
  | infinite s => cases h
  | finite s m => exact ⟨s, finite_eq_signedZero s ((isZero_finite s m).1 h)⟩

namespace Agrees

theorem refl (x : Binary64) : x.Agrees x := Or.inl rfl

theorem symm (h : x.Agrees y) : y.Agrees x := by
  rcases h with rfl | ⟨hx, hy⟩
  · exact refl x
  · exact Or.inr ⟨hy, hx⟩

theorem trans (hxy : x.Agrees y) (hyz : y.Agrees z) : x.Agrees z := by
  rcases hxy with rfl | ⟨hx, hy⟩
  · exact hyz
  · rcases hyz with rfl | ⟨-, hz⟩
    · exact Or.inr ⟨hx, hy⟩
    · exact Or.inr ⟨hx, hz⟩

theorem isFinite_eq (h : x.Agrees y) : x.isFinite = y.isFinite := by
  rcases h with rfl | ⟨hx, hy⟩
  · rfl
  · obtain ⟨s, rfl⟩ := eq_signedZero_of_isZero hx
    obtain ⟨t, rfl⟩ := eq_signedZero_of_isZero hy
    rfl

end Agrees

theorem isProper_of_units_ne_zero {m : Magnitude} (s : Bool) (h : m.units ≠ 0) :
    (finite s m).IsProper := fun hzero => absurd hzero h

/-- A zero that is added changes nothing but the sign of a zero. -/
theorem agrees_add_signedZero (x : Binary64) (t : Bool) : (x + signedZero t).Agrees x := by
  cases x with
  | nan => exact Agrees.refl _
  | infinite s => exact Agrees.refl _
  | finite s m =>
    by_cases hm : m.units = 0
    · rw [finite_eq_signedZero s hm, signedZero_add_signedZero]
      exact Or.inr ⟨rfl, rfl⟩
    · exact Or.inl ((isProper_of_units_ne_zero s hm).add_signedZero t)

theorem agrees_signedZero_add (x : Binary64) (t : Bool) : (signedZero t + x).Agrees x := by
  cases x with
  | nan => exact Agrees.refl _
  | infinite s => exact Agrees.refl _
  | finite s m =>
    by_cases hm : m.units = 0
    · rw [finite_eq_signedZero s hm, signedZero_add_signedZero]
      exact Or.inr ⟨rfl, rfl⟩
    · exact Or.inl ((isProper_of_units_ne_zero s hm).signedZero_add t)

/-- A zero times a finite number is a zero, and times anything else it is not-a-number. -/
theorem signedZero_mul_cases (z : Binary64) :
    (∀ s, signedZero s * z = .nan) ∨ ∀ s, (signedZero s * z).isZero = true := by
  cases z with
  | nan => exact Or.inl fun s => rfl
  | infinite t => exact Or.inl fun s => rfl
  | finite t n =>
    refine Or.inr fun s => ?_
    rw [signedZero, finite_mul_finite, Nat.zero_mul,
      Decimal.round_eq_signedZero _ unitsPerOne_pos]
    rfl

namespace Agrees

/-- Sums of numbers that agree. -/
theorem add (hx : x.Agrees x') (hy : y.Agrees y') : (x + y).Agrees (x' + y') := by
  have hleft : (x + y).Agrees (x' + y) := by
    rcases hx with rfl | ⟨hx, hx'⟩
    · exact refl _
    · obtain ⟨s, rfl⟩ := eq_signedZero_of_isZero hx
      obtain ⟨t, rfl⟩ := eq_signedZero_of_isZero hx'
      exact (agrees_signedZero_add y s).trans (agrees_signedZero_add y t).symm
  refine hleft.trans ?_
  rcases hy with rfl | ⟨hy, hy'⟩
  · exact refl _
  · obtain ⟨s, rfl⟩ := eq_signedZero_of_isZero hy
    obtain ⟨t, rfl⟩ := eq_signedZero_of_isZero hy'
    exact (agrees_add_signedZero x' s).trans (agrees_add_signedZero x' t).symm

/-- Products of numbers that agree with any number. -/
theorem mul_right (hx : x.Agrees x') (z : Binary64) : (x * z).Agrees (x' * z) := by
  rcases hx with rfl | ⟨hx, hx'⟩
  · exact refl _
  · obtain ⟨s, rfl⟩ := eq_signedZero_of_isZero hx
    obtain ⟨t, rfl⟩ := eq_signedZero_of_isZero hx'
    rcases signedZero_mul_cases z with hnan | hzero
    · rw [hnan s, hnan t]
      exact refl _
    · exact Or.inr ⟨hzero s, hzero t⟩

end Agrees

/-- Zero is written for a zero, whatever its sign. -/
theorem written_of_isZero (h : x.isZero = true) : x.written = 0 := by
  obtain ⟨s, rfl⟩ := eq_signedZero_of_isZero h
  obtain ⟨m, hm, hunits⟩ := toSixPlaces_finite s ⟨0, isRepresentable_zero⟩
  have hzero : (toSixPlaces (signedZero s)).isZero = true := by
    rw [signedZero, hm, isZero_finite, hunits, sixPlaces_zero]
  rw [written, if_pos (Or.inr hzero)]

/-- The same text is written for numbers that agree. -/
theorem Agrees.entryText_eq (h : x.Agrees y) : x.entryText = y.entryText := by
  rcases h with rfl | ⟨hx, hy⟩
  · rfl
  · rw [Binary64.entryText_eq, Binary64.entryText_eq, written_of_isZero hx, written_of_isZero hy]

end Binary64

end CssTransform
