import CssTransform.Proofs.Conversion
import CssTransform.Proofs.Numeric.Canonical

/-!
# The text of a conversion

Whatever a conversion gives is one call of `matrix3d` with sixteen canonical numbers of at most six
places. None of them is a negative zero, and none has an exponent or a word in its place, for digits,
a sign and a point are all that they are made of.

## Main results

* `IsCanonicalNumber.isNumeralChar`, `IsCanonicalNumber.ne_negative_zero` — what no canonical number
  holds
* `exists_numbers_of_convert?` — the numbers of a conversion
-/

namespace CssTransform

open Numeral (IsDigits)
open Binary64 (signText)

namespace IsCanonicalNumber

variable {places : ℕ} {text : List Char}

/-- A canonical number is made of digits, a sign and a point. -/
theorem isNumeralChar (h : IsCanonicalNumber places text) : ∀ c ∈ text, IsNumeralChar c := by
  have hsign : ∀ negative, ∀ c ∈ signText negative, IsNumeralChar c := by
    intro negative c hc
    cases negative with
    | true => exact .inr (.inl (List.mem_singleton.1 hc))
    | false => exact absurd hc List.not_mem_nil
  cases h with
  | zero => exact (Numeral.isDigits_replicate_zero 1).isNumeralChar
  | whole negative hwhole hne =>
    exact List.forall_mem_append.2 ⟨hsign negative, hwhole.isDigits.isNumeralChar⟩
  | fraction negative hwhole hfraction hplaces =>
    refine List.forall_mem_append.2 ⟨hsign negative, ?_⟩
    refine List.forall_mem_append.2 ⟨hwhole.isDigits.isNumeralChar, ?_⟩
    exact List.forall_mem_cons.2 ⟨.inr (.inr rfl), hfraction.isDigits.isNumeralChar⟩

theorem ne_negative_zero (h : IsCanonicalNumber places text) : text ≠ "-0".toList := by
  rintro rfl
  generalize htext : "-0".toList = text at h
  cases h with
  | zero => exact absurd htext (by decide)
  | @whole negative whole hwhole hne =>
    cases negative with
    | true => exact hne (List.cons.inj htext).2.symm
    | false =>
      have hdigit := hwhole.isDigits '-' (by rw [← show "-0".toList = whole from htext]; decide)
      exact absurd hdigit (by decide)
  | fraction negative hwhole hfraction hplaces =>
    have hpoint : '.' ∈ "-0".toList := by
      rw [htext]
      simp
    exact absurd hpoint (by decide)

end IsCanonicalNumber

/-- **The numbers of a conversion.** The text of every finite entry is canonical and has at most six
places, and a conversion is a call of `matrix3d` with sixteen such texts, joined by a comma and a
space. -/
theorem exists_numbers_of_convert? :
    (∀ x : Binary64, x.isFinite = true → IsCanonicalNumber 6 x.entryText) ∧
      ∀ (policy : InvalidCallPolicy) (value s : List Char),
        convert? policy value = .ok (some s) →
          ∃ numbers : List (List Char), numbers.length = 16 ∧
            s = "matrix3d(".toList ++ (", ".toList).intercalate numbers ++ [')'] ∧
            ∀ number ∈ numbers, IsCanonicalNumber 6 number ∧ number ≠ "-0".toList ∧
              ∀ c ∈ number, c.isDigit = true ∨ c = '-' ∨ c = '.' := by
  refine ⟨fun x => Binary64.isCanonicalNumber_entryText, ?_⟩
  intro policy value s h
  obtain ⟨m, hm, rfl⟩ := exists_matrix_of_convert? h
  refine ⟨m.toList.map Binary64.entryText, List.length_map _, rfl, ?_⟩
  intro number hnumber
  obtain ⟨x, hx, rfl⟩ := List.mem_map.1 hnumber
  have hcanonical := Binary64.isCanonicalNumber_entryText (hm x hx)
  exact ⟨hcanonical, hcanonical.ne_negative_zero, hcanonical.isNumeralChar⟩

/-- A number that rounds to zero, a negative one, and one that is too large to be rounded. -/
theorem exists_numbers_of_convert?_translate3d :
    convert? .skip "translate3d(-1e-7px, -2.50px, 12345678901.123456789px)".toList =
        .ok (some "matrix3d(1, 0, 0, 0, 0, 1, 0, 0, 0, 0, 1, 0, 0, -2.5, 12345678901.123457, 1)".toList) ∧
      ∃ numbers : List (List Char), numbers.length = 16 ∧
        "matrix3d(1, 0, 0, 0, 0, 1, 0, 0, 0, 0, 1, 0, 0, -2.5, 12345678901.123457, 1)".toList =
          "matrix3d(".toList ++ (", ".toList).intercalate numbers ++ [')'] ∧
        ∀ number ∈ numbers, IsCanonicalNumber 6 number ∧ number ≠ "-0".toList ∧
          ∀ c ∈ number, c.isDigit = true ∨ c = '-' ∨ c = '.' := by
  have h : convert? .skip "translate3d(-1e-7px, -2.50px, 12345678901.123456789px)".toList =
      .ok (some
        "matrix3d(1, 0, 0, 0, 0, 1, 0, 0, 0, 0, 1, 0, 0, -2.5, 12345678901.123457, 1)".toList) := by
    decide +kernel
  exact ⟨h, exists_numbers_of_convert?.2 _ _ _ h⟩

end CssTransform
