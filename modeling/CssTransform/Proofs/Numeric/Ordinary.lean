import CssTransform.Proofs.Matrix.Text
import CssTransform.Proofs.Numeric.Canonical
import Mathlib.Data.List.DropRight

/-!
# Numbers that are written as they were read

A canonical number with at most six places is a whole count of millionths and a sign, and its text
is determined by these two. Below `2 ^ 32` the count is determined by the number that is read: that
number is less than half a millionth off, so the digits that are written for it are the digits that
were read.

## Which choice is load-bearing

Nothing is said about the search for the shortest decimal. What is written for a number is canonical
and is read as that number, and between two canonical texts that are read as the same number there
is no room for two counts of millionths. The bound is needed in one place only, where the number
that is read is rounded to six places: from `2 ^ 32` on that rounding can move it.

## Main definitions

* `Numeral.millionths` — the digits of a numeral as a count of millionths
* `millionthsText` — the canonical text of a count of millionths
* `Decimal.IsBelow` — decimals below a whole number

## Main results

* `IsWholeText.toDigits_valueOfDigits` — digits without an idle zero are the digits of their value
* `IsCanonicalNumber.exists_millionths` — a canonical number by its sign and its count
* `Binary64.written_of_isMillionths` — a number read below `2 ^ 32` is written itself
* `IsCanonicalNumber.entryText_of_isBelow` — its text is the text that was read
-/

namespace CssTransform

open Numeral (IsDigits valueOfDigits)
open Binary64 (signText unitsPerOne finestSteps unitLimit roundUnits IsMillionths)

-- the counts are never to be written out
attribute [local irreducible] unitsPerOne finestSteps unitLimit

/-! ### Digits and their value -/

theorem exists_digitChar {c : Char} (h : c.isDigit = true) : ∃ d < 10, c = Nat.digitChar d := by
  obtain ⟨hlow, hhigh⟩ := Char.isDigit_iff_toNat.1 h
  have hlow' : 48 ≤ c.toNat := hlow
  have hhigh' : c.toNat ≤ 57 := hhigh
  refine ⟨c.toNat - 48, by omega, Char.toNat_inj.1 ?_⟩
  rw [Nat.toNat_digitChar_of_lt_ten (by omega)]
  omega

theorem valueOfDigits_digitChar {d : ℕ} (hd : d < 10) : valueOfDigits [Nat.digitChar d] = d := by
  rw [valueOfDigits, Nat.ofDigitChars_cons, Nat.ofDigitChars_nil,
    Nat.toNat_digitChar_of_lt_ten hd]
  simp

theorem valueOfDigits_lt {digits : List Char} (h : IsDigits digits) :
    valueOfDigits digits < 10 ^ digits.length := by
  induction digits using List.reverseRecOn with
  | nil => decide
  | append_singleton digits c ih =>
    obtain ⟨d, hd, rfl⟩ := exists_digitChar (h c (by simp))
    have hless := ih fun e he => h e (List.mem_append_left _ he)
    rw [valueOfDigits_append, valueOfDigits_digitChar hd, List.length_append,
      List.length_singleton, Nat.pow_succ]
    omega

/-- Digits with no idle zero in front are the digits of their value. -/
theorem IsWholeText.toDigits_valueOfDigits {text : List Char} (h : IsWholeText text) :
    Nat.toDigits 10 (valueOfDigits text) = text := by
  cases h with
  | zero => decide
  | @nonzero c digits hc hne hdigits =>
    induction digits using List.reverseRecOn with
    | nil =>
      obtain ⟨d, hd, rfl⟩ := exists_digitChar hc
      rw [valueOfDigits_digitChar hd, toDigits_of_lt_ten hd]
    | append_singleton digits e ih =>
      obtain ⟨d, hd, rfl⟩ := exists_digitChar (hdigits e (by simp))
      have hfront := ih fun e he => hdigits e (List.mem_append_left _ he)
      have hpos : valueOfDigits (c :: digits) ≠ 0 := by
        intro hzero
        rw [hzero] at hfront
        exact hne (List.cons.inj hfront).1.symm
      have hvalue : valueOfDigits (c :: (digits ++ [Nat.digitChar d])) =
          valueOfDigits (c :: digits) * 10 + d := by
        rw [← List.cons_append, valueOfDigits_append, valueOfDigits_digitChar hd]
        simp
      rw [hvalue]
      generalize valueOfDigits (c :: digits) = front at hfront hpos
      rw [toDigits_of_ten_le (by omega), show (front * 10 + d) / 10 = front by omega, hfront,
        show (front * 10 + d) % 10 = d by omega]
      rfl

/-! ### Counts of millionths -/

/-- The zeros that fill up digits after a point to six places. -/
def fillingZeros (fraction : List Char) : List Char := List.replicate (6 - fraction.length) '0'

/-- The count of millionths that digits before and after a point stand for, the latter at most
six. -/
def Numeral.millionths (whole fraction : List Char) : ℕ :=
  valueOfDigits whole * 1000000 + valueOfDigits (fraction ++ fillingZeros fraction)

/-- The canonical text of a count of millionths. The six last digits of a number are what is left
without the first of seven. -/
def millionthsText (n : ℕ) : List Char :=
  let fraction := (Nat.toDigits 10 (1000000 + n % 1000000)).tail.rdropWhile (· == '0')
  Nat.toDigits 10 (n / 1000000) ++ if fraction = [] then [] else '.' :: fraction

open Numeral (millionths)

section Parts

variable {whole fraction : List Char} (hwhole : IsWholeText whole)
  (hfraction : fraction = [] ∨ IsFractionText fraction) (hplaces : fraction.length ≤ 6)

include hplaces in
theorem length_append_fillingZeros : (fraction ++ fillingZeros fraction).length = 6 := by
  rw [fillingZeros, List.length_append, List.length_replicate]
  omega

include hplaces in
theorem millionths_eq : millionths whole fraction =
    valueOfDigits (whole ++ fraction) * 10 ^ (6 - fraction.length) := by
  rw [← valueOfDigits_append_zeros, List.append_assoc, valueOfDigits_append,
    ← fillingZeros, length_append_fillingZeros hplaces, millionths]
  rfl

theorem IsDigits.append_fillingZeros (h : IsDigits fraction) :
    IsDigits (fraction ++ fillingZeros fraction) :=
  h.append (Numeral.isDigits_replicate_zero _)

include hfraction

theorem isDigits_fraction : IsDigits fraction := by
  rcases hfraction with rfl | hfraction
  · exact nofun
  · exact hfraction.isDigits

/-- No digit is lost with the zeros. -/
theorem rdropWhile_append_fillingZeros :
    (fraction ++ fillingZeros fraction).rdropWhile (· == '0') = fraction := by
  have hzeros : ∀ k, (fraction ++ List.replicate k '0').rdropWhile (· == '0') =
      fraction.rdropWhile (· == '0') := by
    intro k
    induction k with
    | zero => rw [List.replicate_zero, List.append_nil]
    | succ k ih =>
      rw [List.replicate_succ', ← List.append_assoc, List.rdropWhile_concat_pos _ _ _ rfl, ih]
  rw [fillingZeros, hzeros]
  rcases hfraction with rfl | hfraction
  · rfl
  · cases hfraction with
    | mk hdigits hc hne => rw [List.rdropWhile_concat_neg _ _ _ (by simpa using hne)]

include hwhole hplaces

theorem millionthsText_millionths :
    millionthsText (millionths whole fraction) =
      whole ++ if fraction = [] then [] else '.' :: fraction := by
  have hall := IsDigits.append_fillingZeros (isDigits_fraction hfraction)
  have hlength := length_append_fillingZeros hplaces
  have hless := valueOfDigits_lt hall
  rw [hlength] at hless
  have hseven : Nat.toDigits 10 (1000000 + valueOfDigits (fraction ++ fillingZeros fraction)) =
      '1' :: (fraction ++ fillingZeros fraction) := by
    have hone : IsWholeText ('1' :: (fraction ++ fillingZeros fraction)) :=
      .nonzero (by decide) (by decide) hall
    have hvalue := valueOfDigits_append ['1'] (fraction ++ fillingZeros fraction)
    rw [hlength, show valueOfDigits ['1'] * 10 ^ 6 = 1000000 from rfl] at hvalue
    rw [← hvalue]
    exact hone.toDigits_valueOfDigits
  have hdiv : millionths whole fraction / 1000000 = valueOfDigits whole := by
    rw [millionths]
    omega
  have hmod : millionths whole fraction % 1000000 =
      valueOfDigits (fraction ++ fillingZeros fraction) := by
    rw [millionths]
    omega
  rw [millionthsText, hdiv, hmod, hseven, List.tail_cons, rdropWhile_append_fillingZeros hfraction,
    hwhole.toDigits_valueOfDigits]

end Parts

/-! ### Canonical numbers -/

namespace Binary64

variable {a b a' b' : ℕ}

theorem round_congr (negative : Bool) (h : roundUnits a b = roundUnits a' b') :
    round negative a b = round negative a' b' := by
  simp only [round, h]

theorem of_round_eq_finite {negative negative' : Bool} {m : Magnitude}
    (h : round negative a b = .finite negative' m) :
    negative = negative' ∧ roundUnits a b = m.units := by
  rw [round] at h
  split at h
  · cases h
    exact ⟨rfl, rfl⟩
  · cases h

end Binary64

/-- Whether a decimal is below a whole number. -/
def Decimal.IsBelow (d : Decimal) (bound : ℕ) : Prop :=
  d.digits * 10 ^ d.exponent.toNat < bound * 10 ^ (-d.exponent).toNat

instance (d : Decimal) (bound : ℕ) : Decidable (d.IsBelow bound) :=
  inferInstanceAs (Decidable (_ < _))

/-- The sign and the digits of a canonical number. -/
theorem IsCanonicalNumber.exists_parts {places : ℕ} {text : List Char}
    (h : IsCanonicalNumber places text) :
    ∃ negative whole fraction,
      text = signText negative ++ (whole ++ if fraction = [] then [] else '.' :: fraction) ∧
      IsWholeText whole ∧ (fraction = [] ∨ IsFractionText fraction) ∧ fraction.length ≤ places ∧
      (valueOfDigits (whole ++ fraction) = 0 → negative = false) := by
  cases h with
  | zero => exact ⟨false, ['0'], [], rfl, .zero, .inl rfl, Nat.zero_le _, fun _ => rfl⟩
  | @whole negative whole hwhole hne =>
    refine ⟨negative, whole, [], by simp, hwhole, .inl rfl, Nat.zero_le _, fun hzero => ?_⟩
    rw [List.append_nil] at hzero
    have hdigits := hwhole.toDigits_valueOfDigits
    rw [hzero] at hdigits
    exact absurd hdigits.symm hne
  | @fraction negative whole fraction hwhole hfraction hplaces =>
    have hne : fraction ≠ [] := by
      cases hfraction
      simp
    refine ⟨negative, whole, fraction, by rw [if_neg hne], hwhole, .inr hfraction, hplaces,
      fun hzero => ?_⟩
    cases hfraction with
    | @mk digits c hdigits hc hc0 =>
      obtain ⟨d, hd, rfl⟩ := exists_digitChar hc
      rw [← List.append_assoc, valueOfDigits_append, valueOfDigits_digitChar hd] at hzero
      obtain rfl : d = 0 := by omega
      exact absurd rfl hc0

/-- A canonical number is a sign and a count of millionths: they make up its text, they decide
whether it is below a whole number, and it is read as their rounding. -/
theorem IsCanonicalNumber.exists_millionths {text : List Char} (h : IsCanonicalNumber 6 text) :
    ∃ negative n, text = signText negative ++ millionthsText n ∧ (n = 0 → negative = false) ∧
      (∀ numeral ∈ Numeral.leading? text, ∀ bound,
        numeral.magnitude.IsBelow bound ↔ n < bound * 1000000) ∧
      Value.leadingNumber text = some (.round negative (n * unitsPerOne) 1000000) := by
  obtain ⟨negative, whole, fraction, rfl, hwhole, hfraction, hplaces, hsign⟩ := h.exists_parts
  have hleading := Numeral.leading?_signText_append negative hwhole.isDigits
    (isDigits_fraction hfraction) (by cases hwhole <;> simp)
  have hmillionths := @millionths_eq whole fraction hplaces
  have hten : 10 ^ (6 - fraction.length) * 10 ^ fraction.length = 1000000 := by
    rw [← Nat.pow_add, Nat.sub_add_cancel hplaces]
  have hpos : 0 < 10 ^ (6 - fraction.length) := Nat.pow_pos (by decide)
  have hexponent : ((0 : ℤ) - fraction.length).toNat = 0 := by omega
  have hplaces' : (-((0 : ℤ) - fraction.length)).toNat = fraction.length := by omega
  refine ⟨negative, millionths whole fraction,
    by rw [millionthsText_millionths hwhole hfraction hplaces], fun hzero => hsign ?_, ?_, ?_⟩
  · rw [hmillionths] at hzero
    exact (Nat.mul_eq_zero.1 hzero).resolve_right (Nat.ne_of_gt hpos)
  · intro numeral hnumeral bound
    rw [hleading] at hnumeral
    obtain rfl := Option.some.inj hnumeral
    rw [Decimal.IsBelow, Numeral.magnitude]
    dsimp only
    rw [hexponent, hplaces', Nat.pow_zero, Nat.mul_one, hmillionths, ← hten,
      Nat.mul_comm (10 ^ (6 - fraction.length)), ← Nat.mul_assoc, Nat.mul_lt_mul_right hpos]
  · rw [Value.leadingNumber, hleading, Option.map_some, Numeral.toBinary64,
      Decimal.toBinary64_eq_round]
    refine congrArg some (Binary64.round_congr negative ?_)
    refine Binary64.roundUnits_congr (Decimal.unitsDenominator_pos _) (by decide) ?_
    rw [Decimal.unitsNumerator, Decimal.unitsDenominator, Numeral.magnitude]
    dsimp only
    rw [hexponent, hplaces', hmillionths, Nat.pow_eq, Nat.pow_eq, Nat.pow_zero, Nat.mul_one, ← hten]
    ring

namespace Binary64

/-! ### Reading and writing -/

variable {n n' y : ℕ}

/-- Below `2 ^ 33` there is one count of millionths at most that is read as a number. -/
theorem IsMillionths.unique (h : IsMillionths n y) (h' : IsMillionths n' y)
    (hy : y < 2 ^ 33 * unitsPerOne) : n = n' := by
  obtain ⟨s, hs, hup, hdown⟩ := h.error (i := 33) (by decide) hy
  obtain ⟨s', hs', hup', hdown'⟩ := h'.error (i := 33) (by decide) hy
  exact eq_of_mul_lt (u := unitsPerOne) (by omega) (by omega)

theorem IsMillionths.le (h : IsMillionths n y) (hn : n < 2 ^ 32 * 1000000) :
    y ≤ 2 ^ 32 * unitsPerOne := by
  rw [h]
  refine roundUnits_le (by decide) (spacing_dvd_two_pow_mul_unitsPerOne 32) ?_
  calc n * unitsPerOne ≤ 2 ^ 32 * 1000000 * unitsPerOne := Nat.mul_le_mul_right _ (Nat.le_of_lt hn)
    _ = 2 ^ 32 * unitsPerOne * 1000000 := by ring

theorem exists_round_eq_finite (negative : Bool) (hn : n < 2 ^ 32 * 1000000) :
    ∃ m, round negative (n * unitsPerOne) 1000000 = .finite negative m ∧
      IsMillionths n m.units := by
  have hle := IsMillionths.le rfl hn
  have hlimit := two_pow_mul_unitsPerOne_le_unitLimit (i := 33) (by decide)
  have hpos := unitsPerOne_pos
  exact ⟨⟨_, spacing_dvd_roundUnits _ _, by omega⟩, round_eq_finite negative rfl, rfl⟩

/-- Below `2 ^ 32`, and there as well, no count that is read is unsteady. -/
theorem IsMillionths.not_isUnsteadyCount (h : IsMillionths n y) (hn : n < 2 ^ 32 * 1000000) :
    ¬IsUnsteadyCount y := by
  rintro ⟨hlow, -, hquarter, -⟩
  obtain rfl : y = 2 ^ 32 * unitsPerOne := Nat.le_antisymm (h.le hn) hlow
  rw [Nat.mul_right_comm, Nat.mul_mod_left] at hquarter
  omega

/-- **A number that is read below `2 ^ 32` is written itself.** -/
theorem written_of_isMillionths {negative : Bool} {m : Magnitude} (h : IsMillionths n m.units)
    (hn : n < 2 ^ 32 * 1000000) (hsign : n = 0 → negative = false) :
    written (.finite negative m) = .finite negative m := by
  rcases Nat.eq_zero_or_pos n with rfl | hpos
  · have hunits : m.units = 0 := by
      rw [h, Nat.zero_mul]
      exact Decimal.roundUnits_eq_zero (by decide)
    obtain rfl : m = ⟨0, isRepresentable_zero⟩ := Magnitude.eq_of_units_eq hunits
    rw [hsign rfl]
    exact written_zero
  · have hlarge := le_roundUnits_million (Nat.ne_of_gt hpos)
    rw [← h] at hlarge
    have hone := unitsPerOne_pos
    obtain ⟨m', hm', hunits⟩ := toSixPlaces_finite negative m
    rw [h.sixPlaces_eq_iff.2 (h.not_isUnsteadyCount hn)] at hunits
    obtain rfl : m' = m := Magnitude.eq_of_units_eq hunits
    rw [written, hm', absLt_negligible_eq_false negative hlarge, if_neg]
    rw [isZero_finite]
    simp
    omega

end Binary64

/-- **A canonical number below `2 ^ 32` is read as a number whose text it is.** -/
theorem IsCanonicalNumber.entryText_of_isBelow {text : List Char} (h : IsCanonicalNumber 6 text)
    (hbelow : ∀ numeral ∈ Numeral.leading? text, numeral.magnitude.IsBelow (2 ^ 32)) :
    ∃ x : Binary64, Value.leadingNumber text = some x ∧ x.IsProper ∧ x.entryText = text := by
  obtain ⟨negative, n, htext, hsign, hbound, hread⟩ := h.exists_millionths
  have hn : n < 2 ^ 32 * 1000000 := by
    cases hleading : Numeral.leading? text with
    | none =>
      rw [Value.leadingNumber, hleading] at hread
      cases hread
    | some numeral => exact (hbound numeral hleading _).1 (hbelow numeral hleading)
  obtain ⟨m, hround, hm⟩ := Binary64.exists_round_eq_finite negative hn
  rw [hround] at hread
  have hwritten := Binary64.written_of_isMillionths hm hn hsign
  have hfinite : (Binary64.finite negative m).isFinite = true := rfl
  have hproper := Binary64.isProper_written hfinite
  rw [hwritten] at hproper
  refine ⟨_, hread, hproper, ?_⟩
  -- what is written is canonical too, and it is read as the same number
  obtain ⟨negative', n', htext', -, -, hread'⟩ :=
    (Binary64.isCanonicalNumber_entryText hfinite).exists_millionths
  rw [Value.leadingNumber_entryText hfinite, hwritten] at hread'
  obtain ⟨rfl, hm'⟩ := Binary64.of_round_eq_finite (Option.some.inj hread').symm
  have hless : m.units < 2 ^ 33 * unitsPerOne := by
    have hle := hm.le hn
    have hpos := Binary64.unitsPerOne_pos
    omega
  obtain rfl : n' = n := IsMillionths.unique hm'.symm hm hless
  rw [htext', htext]

end CssTransform
