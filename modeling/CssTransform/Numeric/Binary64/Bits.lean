import CssTransform.Numeric.Binary64

/-!
# The interchange form of binary64 numbers

A number travels as a 64-bit word: one sign bit, eleven exponent bits and fifty-two fraction bits.
Counting in units makes the word of a magnitude almost the count itself: below `2 ^ 53` it *is* the
count, and every further binary digit of the count adds one to the exponent field.

## Main definitions

* `Binary64.toBits` — the word of a number; there is one word for not-a-number
* `Binary64.ofBits` — the number of a word, bits above the sixty-fourth being ignored
-/

namespace CssTransform

namespace Binary64

/-- The weight of the lowest exponent bit in a word: the 52nd power of two. -/
def exponentWeight : Nat := 4503599627370496

/-- The weight of the sign bit in a word: the 63rd power of two. -/
def signWeight : Nat := 9223372036854775808

/-- The exponent field of the words that are not finite numbers. -/
def lastExponent : Nat := 2047

/-- The lower 63 bits of the word of a magnitude. -/
def Magnitude.toBits (m : Magnitude) : Nat :=
  (m.units.log2 - 52) * exponentWeight + m.units / spacing m.units

/-- The word of a number. -/
def toBits : Binary64 → Nat
  | .nan => lastExponent * exponentWeight + exponentWeight / 2
  | .infinite s => s.toNat * signWeight + lastExponent * exponentWeight
  | .finite s m => s.toNat * signWeight + m.toBits

/-- The count of units that the exponent and fraction fields of a finite number stand for. -/
def unitsOfFields (exponent fraction : Nat) : Nat :=
  if exponent = 0 then fraction else (exponentWeight + fraction) * Nat.pow 2 (exponent - 1)

theorem isRepresentable_unitsOfFields {exponent fraction : Nat} (he : exponent < lastExponent)
    (hf : fraction < exponentWeight) : IsRepresentable (unitsOfFields exponent fraction) := by
  have hw : exponentWeight = 4503599627370496 := rfl
  unfold unitsOfFields
  split
  · constructor
    · simpa using spacing_dvd_mul_two_pow (m := fraction) (by omega) 0
    · exact Nat.lt_trans hf (by decide +kernel)
  · refine ⟨spacing_dvd_mul_two_pow (by omega) _, ?_⟩
    have hlt : exponentWeight + fraction < 2 ^ 53 := by omega
    calc (exponentWeight + fraction) * 2 ^ (exponent - 1)
        < 2 ^ 53 * 2 ^ (exponent - 1) := Nat.mul_lt_mul_of_pos_right hlt (Nat.two_pow_pos _)
      _ = 2 ^ (53 + (exponent - 1)) := (Nat.pow_add ..).symm
      _ ≤ unitLimit := two_pow_le_unitLimit (by unfold lastExponent at he; omega)

/-- The number of a word. -/
def ofBits (word : Nat) : Binary64 :=
  let negative := word / signWeight % 2 == 1
  let exponent := word / exponentWeight % (lastExponent + 1)
  let fraction := word % exponentWeight
  if he : exponent < lastExponent then
    .finite negative ⟨unitsOfFields exponent fraction,
      isRepresentable_unitsOfFields he (Nat.mod_lt _ (by decide))⟩
  else if fraction = 0 then
    .infinite negative
  else
    .nan

end Binary64

end CssTransform
