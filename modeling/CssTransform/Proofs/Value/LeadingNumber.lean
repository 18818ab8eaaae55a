import CssTransform.Proofs.Numeric.Nearest
import CssTransform.Proofs.Numeric.PlainText
import CssTransform.Proofs.Value.LetterCase

/-!
# The number at the front of a word

A word is read as far as it spells a numeral, and what the numeral says is rounded once. Both halves
are told elsewhere, the texts of numerals in one place and correct rounding in the other. Here they
meet: what a word is read as is the correct rounding of the longest numeral at its front, whatever
its length and its exponent, and there is a number if there is any numeral at the front at all.

## Which choice is load-bearing

The number could be read in two steps, the longest numeral being cut off first and then read again
from end to end by a reader that knows more texts, such as `inf`, and rejects what it does not know.
`Binary64.ofText?` is that reader. It never rejects what was cut off, and no name of a number that
is not finite is the text of a numeral: so one step is enough, and the second one cannot fail.

## Main definitions

* `Numeral.absValue` — what a numeral says, without its sign
* `Binary64.ofText?` — the number that a text is from end to end

## Main results

* `Numeral.isRounding_toBinary64` — a numeral is correctly rounded
* `Binary64.ofText?_of_spells` — no numeral is rejected
* `Value.leadingNumber_longest` — the number at the front of a word
-/

namespace CssTransform

open Binary64 (IsRounding overflowBound underflowBound unitsPerOne)

/-! ### What a numeral says -/

/-- A decimal counts the units that it should. -/
theorem Decimal.units_quotient (d : Decimal) :
    (d.unitsNumerator / d.unitsDenominator / unitsPerOne : ℚ) = d.digits * 10 ^ d.exponent := by
  have hU : (unitsPerOne : ℚ) ≠ 0 := Nat.cast_ne_zero.2 Binary64.unitsPerOne_pos.ne'
  have hten : (10 : ℚ) ≠ 0 := by norm_num
  have hexponent : (10 : ℚ) ^ d.exponent = 10 ^ d.exponent.toNat / 10 ^ (-d.exponent).toNat := by
    rw [← zpow_natCast, ← zpow_natCast, ← zpow_sub₀ hten, Int.toNat_sub_toNat_neg]
  rw [hexponent, unitsNumerator, unitsDenominator, Nat.pow_eq, Nat.pow_eq]
  push_cast
  field_simp

namespace Numeral

/-- The number that a numeral is, without its sign. -/
def absValue (n : Numeral) : ℚ :=
  (valueOfDigits n.whole + valueOfDigits n.fraction / 10 ^ n.fraction.length) * 10 ^ n.exponent

theorem absValue_eq_magnitude (n : Numeral) :
    n.absValue = n.magnitude.digits * 10 ^ n.magnitude.exponent := by
  have hten : (10 : ℚ) ≠ 0 := by norm_num
  rw [magnitude, absValue]
  dsimp only
  rw [valueOfDigits_append, zpow_sub₀ hten, zpow_natCast]
  push_cast
  field_simp

theorem absValue_nonneg (n : Numeral) : 0 ≤ n.absValue := by
  rw [absValue_eq_magnitude]
  exact mul_nonneg (Nat.cast_nonneg _) (zpow_nonneg (by norm_num) _)

/-- **A numeral is correctly rounded.** -/
theorem isRounding_toBinary64 (n : Numeral) : IsRounding n.negative n.absValue n.toBinary64 := by
  rw [toBinary64, Decimal.toBinary64_eq_round, absValue_eq_magnitude, ← Decimal.units_quotient]
  exact Binary64.isRounding_round n.negative n.magnitude.unitsDenominator_pos

end Numeral

/-! ### A text from end to end -/

/-- The number that a text is from end to end: a numeral, or the name of a number that is not
finite, in letters of either case. -/
def Binary64.ofText? (text : List Char) : Option Binary64 :=
  let (negative, unsigned) := Numeral.takeSign text
  let name := TransformFunction.foldCase unsigned
  if name = "nan".toList then some .nan
  else if name = "inf".toList ∨ name = "infinity".toList then some (.infinite negative)
  else (Numeral.ofText? text).map Numeral.toBinary64

/-- No numeral is rejected, and none is taken for a name. -/
theorem Binary64.ofText?_of_spells {text : List Char} {n : Numeral} (h : Numeral.Spells text n) :
    ofText? text = some n.toBinary64 := by
  obtain @⟨sign, decimals, exponent, n, hs, hd, he⟩ := id h
  have hread : Numeral.ofText? (sign ++ (decimals ++ exponent)) = some n :=
    Numeral.ofText?_eq_some_iff.2 h
  have hhead : (TransformFunction.foldCase (decimals ++ exponent)).head?.any
      Numeral.isDecimalChar = true := by
    obtain ⟨c, hc, hdecimal⟩ := hd.head exponent
    rw [TransformFunction.foldCase, List.head?_map, hc, Option.map_some, Option.any_some,
      toLower_invariant (f := Numeral.isDecimalChar) (by decide), hdecimal]
  -- no name begins with a digit or the point
  have hname : ∀ name : List Char, name.head?.any Numeral.isDecimalChar = false →
      TransformFunction.foldCase (decimals ++ exponent) ≠ name := by
    rintro name hletter rfl
    rw [hhead] at hletter
    cases hletter
  rw [ofText?, Numeral.takeSign_append hs (hd.head exponent)]
  dsimp only
  rw [if_neg (hname _ (by decide)), if_neg (not_or.2 ⟨hname _ (by decide), hname _ (by decide)⟩),
    hread, Option.map_some]

namespace Value

open Numeral (Spells)

/-- **The number at the front of a word** is the correct rounding of the longest numeral there, and
there is one if any numeral stands at the front. Reading the numeral again from end to end gives it
too, and does not fail. -/
theorem leadingNumber_longest (word : List Char) :
    ((leadingNumber word).isSome = true ↔ ∃ text, text <+: word ∧ Numeral.IsText text) ∧
      (∀ x, leadingNumber word = some x ↔
        ∃ text n, IsLongest Numeral.IsText text word ∧ Spells text n ∧
          IsRounding n.negative n.absValue x) ∧
      (∀ text n, IsLongest Numeral.IsText text word → Spells text n →
        leadingNumber word = Binary64.ofText? text ∧
          (overflowBound ≤ n.absValue → leadingNumber word = some (.infinite n.negative)) ∧
          (n.absValue ≤ underflowBound →
            leadingNumber word = some (Binary64.signedZero n.negative))) ∧
      ∀ text, Numeral.IsText text → (Binary64.ofText? text).isSome = true := by
  have hread : ∀ {text : List Char} {n : Numeral}, IsLongest Numeral.IsText text word →
      Spells text n → leadingNumber word = some n.toBinary64 := by
    intro text n hlongest hn
    rw [leadingNumber, Numeral.leading?_eq_some_iff.2 ⟨text, hlongest, hn⟩, Option.map_some]
  refine ⟨?_, fun x => ⟨fun h => ?_, ?_⟩, fun text n hlongest hn => ?_, ?_⟩
  · rw [leadingNumber, Option.isSome_map]
    exact Numeral.isSome_leading?_iff
  · obtain ⟨n, hfound, rfl⟩ := Option.map_eq_some_iff.1 h
    obtain ⟨text, hlongest, hn⟩ := Numeral.leading?_eq_some_iff.1 hfound
    exact ⟨text, n, hlongest, hn, n.isRounding_toBinary64⟩
  · rintro ⟨text, n, hlongest, hn, hround⟩
    rw [hread hlongest hn, hround.unique n.isRounding_toBinary64]
  · have hround := n.isRounding_toBinary64
    rw [hread hlongest hn]
    refine ⟨(Binary64.ofText?_of_spells hn).symm, fun hover => ?_, fun hunder => ?_⟩
    · rw [hround.unique (.infinite hover)]
    · rw [hround.eq_signedZero n.absValue_nonneg hunder]
  · rintro text ⟨n, hn⟩
    rw [Binary64.ofText?_of_spells hn]
    rfl

/-- The second mark of an exponent has no digits behind it, so it stays behind. -/
theorem leadingNumber_longest_mark :
    IsLongest Numeral.IsText "1.5e+3".toList "1.5e+3e-x".toList ∧
      leadingNumber "1.5e+3e-x".toList = Binary64.ofText? "1.5e+3".toList ∧
      ∀ x, IsRounding false 1500 x → leadingNumber "1.5e+3e-x".toList = some x := by
  have hlongest : IsLongest Numeral.IsText "1.5e+3".toList "1.5e+3e-x".toList := by decide +kernel
  have hspells : Spells "1.5e+3".toList ⟨false, ['1'], ['5'], 3⟩ :=
    Numeral.ofText?_eq_some_iff.1 (by decide +kernel)
  have hvalue : Numeral.absValue ⟨false, ['1'], ['5'], 3⟩ = 1500 := by
    have hone : Numeral.valueOfDigits ['1'] = 1 := by decide
    have hfive : Numeral.valueOfDigits ['5'] = 5 := by decide
    rw [Numeral.absValue, hone, hfive]
    norm_num
  obtain ⟨-, hvalues, hagain, -⟩ := leadingNumber_longest "1.5e+3e-x".toList
  refine ⟨hlongest, (hagain _ _ hlongest hspells).1, fun x hx => ?_⟩
  exact (hvalues x).2 ⟨_, _, hlongest, hspells, hvalue ▸ hx⟩

end Value

end CssTransform
