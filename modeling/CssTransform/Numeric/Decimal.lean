import CssTransform.Numeric.Binary64

/-!
# Decimal numbers

A decimal is a whole number of steps on a grid of powers of ten. This module gives its value as a
binary64 number and its text without an exponent.

## Which choice is load-bearing

The value is *one* rounding of an exact quotient of natural numbers. The two shortcuts, for an
exponent so high that the number is past every finite one and for one so low that it is nearer to
zero than to anything else, only spare the computation of huge powers: `toBinary64_eq_round` says
that the answer does not depend on them.

## Main definitions

* `Decimal` — steps and the power of ten of the grid
* `Decimal.toBinary64` — the nearest binary64 number, ties to even
* `Decimal.plainText` — the digits, with a point or with zeros, never with an exponent

## Main results

* `Decimal.toBinary64_eq_round` — reading is one correct rounding
-/

namespace CssTransform

/-- The number `digits * 10 ^ exponent`. -/
structure Decimal where
  digits : Nat
  exponent : Int
deriving DecidableEq

namespace Decimal

open Binary64 (unitsPerOne unitLimit roundUnits nearestEven spacing signedZero)

/-! ### Value -/

/-- The numerator of the value in units. -/
def unitsNumerator (d : Decimal) : Nat := d.digits * Nat.pow 10 d.exponent.toNat * unitsPerOne

/-- The denominator of the value in units. -/
def unitsDenominator (d : Decimal) : Nat := Nat.pow 10 (-d.exponent).toNat

/-- From this exponent on, a single digit is past every finite number. -/
def overflowExponent : Nat := 309

/-- Whether so many places after the point leave the digits below a quarter of a unit. -/
def IsNegligible (digits places : Nat) : Prop := digits.log2 + 1077 ≤ 3 * places

instance (digits places : Nat) : Decidable (IsNegligible digits places) :=
  inferInstanceAs (Decidable (_ ≤ _))

/-- The binary64 number nearest to a decimal with the given sign. -/
def toBinary64 (negative : Bool) (d : Decimal) : Binary64 :=
  if d.digits = 0 then signedZero negative
  else if overflowExponent ≤ d.exponent.toNat then .infinite negative
  else if IsNegligible d.digits (-d.exponent).toNat then signedZero negative
  else Binary64.round negative d.unitsNumerator d.unitsDenominator

theorem two_pow_log2_le_roundUnits {a b : Nat} (h : a / b ≠ 0) :
    Nat.pow 2 (a / b).log2 ≤ roundUnits a b := by
  rw [Nat.pow_eq]
  have hsplit : 2 ^ (a / b).log2 = 2 ^ ((a / b).log2 - ((a / b).log2 - 52)) * spacing (a / b) := by
    rw [spacing, Nat.pow_eq, ← Nat.pow_add]
    congr 1
    omega
  have hfloor : a / (b * spacing (a / b)) ≤ nearestEven a (b * spacing (a / b)) := by
    unfold nearestEven
    split
    · exact Nat.le_refl _
    · split <;> omega
  have hquot : 2 ^ ((a / b).log2 - ((a / b).log2 - 52)) ≤ a / (b * spacing (a / b)) := by
    rw [← Nat.div_div_eq_div_mul, Nat.le_div_iff_mul_le (Binary64.spacing_pos _), ← hsplit]
    exact Nat.log2_self_le h
  rw [hsplit]
  exact Nat.mul_le_mul_right _ (Nat.le_trans hquot hfloor)

theorem roundUnits_eq_zero {a b : Nat} (h : 2 * a < b) : roundUnits a b = 0 := by
  have hdiv : a / b = 0 := Nat.div_eq_of_lt (by omega)
  have hspacing : spacing 0 = 1 := by simp [spacing]
  have hmod : a % b = a := Nat.mod_eq_of_lt (by omega)
  simp [roundUnits, nearestEven, hdiv, hspacing, hmod, h]

theorem round_eq_infinite {a b : Nat} (negative : Bool) (h : unitLimit ≤ a / b) :
    Binary64.round negative a b = .infinite negative := by
  have hne : a / b ≠ 0 := by
    have := Binary64.unitLimit_pos
    omega
  have hlog : 2098 ≤ (a / b).log2 := by
    unfold unitLimit at h
    generalize 2098 = m at h ⊢
    exact (Nat.le_log2 hne).2 h
  have hle : unitLimit ≤ roundUnits a b :=
    Nat.le_trans (Binary64.unitLimit_le_two_pow hlog) (two_pow_log2_le_roundUnits hne)
  simp [Binary64.round, Nat.not_lt.2 hle]

theorem round_eq_signedZero {a b : Nat} (negative : Bool) (h : 2 * a < b) :
    Binary64.round negative a b = signedZero negative := by
  have hzero := roundUnits_eq_zero h
  simp [Binary64.round, hzero, signedZero, Binary64.unitLimit_pos]

theorem unitLimit_le_unitsNumerator {d : Decimal} (hd : d.digits ≠ 0)
    (he : overflowExponent ≤ d.exponent.toNat) : unitLimit ≤ d.unitsNumerator := by
  have hten : 2 ^ 1024 ≤ 10 ^ d.exponent.toNat :=
    Nat.le_trans (by decide +kernel : 2 ^ 1024 ≤ 10 ^ overflowExponent)
      (Nat.pow_le_pow_right (by decide) he)
  calc unitLimit = 2 ^ 1024 * unitsPerOne := by decide +kernel
    _ ≤ 10 ^ d.exponent.toNat * unitsPerOne := Nat.mul_le_mul_right _ hten
    _ ≤ d.digits * 10 ^ d.exponent.toNat * unitsPerOne :=
      Nat.mul_le_mul_right _ (Nat.le_mul_of_pos_left _ (Nat.pos_of_ne_zero hd))

theorem two_mul_lt_ten_pow {n p k : Nat} (h : n.log2 + p + 2 ≤ 3 * k) :
    2 * (n * Nat.pow 2 p) < Nat.pow 10 k := by
  rw [Nat.pow_eq, Nat.pow_eq]
  have hn : n < 2 ^ (n.log2 + 1) := Nat.lt_log2_self
  calc 2 * (n * 2 ^ p) = n * 2 ^ (p + 1) := by
        rw [Nat.pow_succ, ← Nat.mul_assoc n, Nat.mul_comm 2]
    _ < 2 ^ (n.log2 + 1) * 2 ^ (p + 1) := Nat.mul_lt_mul_of_pos_right hn (Nat.two_pow_pos _)
    _ = 2 ^ (n.log2 + 1 + (p + 1)) := (Nat.pow_add ..).symm
    _ ≤ 2 ^ (3 * k) := Nat.pow_le_pow_right (by decide) (by omega)
    _ = 8 ^ k := Nat.pow_mul 2 3 _
    _ ≤ 10 ^ k := Nat.pow_le_pow_left (by decide) _

theorem unitsNumerator_lt_of_isNegligible {d : Decimal} (he : d.exponent.toNat = 0)
    (h : IsNegligible d.digits (-d.exponent).toNat) :
    2 * d.unitsNumerator < d.unitsDenominator := by
  unfold unitsNumerator unitsDenominator
  rw [he, show d.digits * Nat.pow 10 0 = d.digits from Nat.mul_one _]
  unfold IsNegligible at h
  unfold unitsPerOne
  generalize hp : 1074 = p
  exact two_mul_lt_ten_pow (by omega)

/-- Reading a decimal is one rounding of its exact value. -/
theorem toBinary64_eq_round (negative : Bool) (d : Decimal) :
    d.toBinary64 negative = Binary64.round negative d.unitsNumerator d.unitsDenominator := by
  unfold toBinary64
  split
  · next hd =>
    refine (round_eq_signedZero _ ?_).symm
    have hpos : 0 < d.unitsDenominator := Nat.pow_pos (by decide)
    simpa [unitsNumerator, hd] using hpos
  · next hd =>
    split
    · next he =>
      have hone : d.unitsDenominator = 1 := by
        have : (-d.exponent).toNat = 0 := by unfold overflowExponent at he; omega
        simp [unitsDenominator, this]
      rw [hone]
      refine (round_eq_infinite _ ?_).symm
      rw [Nat.div_one]
      exact unitLimit_le_unitsNumerator hd he
    · split
      · next hn =>
        refine (round_eq_signedZero _ (unitsNumerator_lt_of_isNegligible ?_ hn)).symm
        unfold IsNegligible at hn
        omega
      · rfl

/-! ### Text -/

/-- The digits of a decimal with the point put in, or zeros appended, and no exponent. -/
def plainText (d : Decimal) : List Char :=
  let digits := Nat.toDigits 10 d.digits
  let places := (-d.exponent).toNat
  if places = 0 then
    digits ++ List.replicate d.exponent.toNat '0'
  else if digits.length ≤ places then
    '0' :: '.' :: List.replicate (places - digits.length) '0' ++ digits
  else
    digits.take (digits.length - places) ++ '.' :: digits.drop (digits.length - places)

end Decimal

end CssTransform
