import CssTransform.Numeric.Binary64.Shortest
import CssTransform.Proofs.Numeric.Grammar
import CssTransform.Proofs.Numeric.Written
import CssTransform.Value

/-!
# Plain text is read back

The text of a finite number, read as a numeral, gives the number again. It takes two facts that
have nothing to do with each other: the decimal that is printed is read as the number, wherever the
search for the shortest one ended, and the digits of a printed decimal spell that decimal.

## Main results

* `Binary64.toBinary64_shortest` — the shortest decimal of a magnitude is read as the magnitude
* `Value.leadingNumber_plainText` — the plain text of a finite number is read as the number
-/

namespace CssTransform

open Binary64 (unitsPerOne finestSteps spacing roundUnits)

-- the two counts are never to be written out
attribute [local irreducible] unitsPerOne finestSteps

/-! ### The value of a decimal -/

namespace Decimal

theorem unitsDenominator_pos (d : Decimal) : 0 < d.unitsDenominator := Nat.pow_pos (by decide)

theorem toBinary64_eq_of_roundUnits {d : Decimal} {m : Binary64.Magnitude} (negative : Bool)
    (h : roundUnits d.unitsNumerator d.unitsDenominator = m.units) :
    d.toBinary64 negative = .finite negative m := by
  rw [toBinary64_eq_round, Binary64.round_eq_finite negative h]

end Decimal

namespace Binary64

theorem unitsPerOne_mul_finestSteps : unitsPerOne * finestSteps = 10 ^ 1074 := by
  unfold unitsPerOne finestSteps
  generalize 1074 = p
  exact (Nat.mul_pow 2 5 p).symm

theorem finestSteps_pos : 0 < finestSteps := by
  unfold finestSteps
  generalize 1074 = p
  exact Nat.pow_pos (by decide)

/-- A decimal of a grid, as a quotient of counts. -/
theorem unitsNumerator_grid (q i : ℕ) :
    (⟨q, (i : ℤ) - 1074⟩ : Decimal).unitsNumerator * finestSteps =
      q * 10 ^ i * (⟨q, (i : ℤ) - 1074⟩ : Decimal).unitsDenominator := by
  rw [Decimal.unitsNumerator, Decimal.unitsDenominator, Nat.mul_assoc, unitsPerOne_mul_finestSteps,
    Nat.mul_assoc q, Nat.mul_assoc q]
  generalize hp : 1074 = p
  congr 1
  rcases Nat.le_total p i with hle | hle
  · obtain ⟨j, rfl⟩ := Nat.exists_eq_add_of_le hle
    have hup : ((p + j : ℕ) - (1074 : ℤ)).toNat = j := by omega
    have hdown : (-((p + j : ℕ) - (1074 : ℤ))).toNat = 0 := by omega
    rw [hup, hdown]
    simp [Nat.pow_add, Nat.mul_comm]
  · obtain ⟨j, rfl⟩ := Nat.exists_eq_add_of_le hle
    have hup : ((i : ℕ) - (1074 : ℤ)).toNat = 0 := by omega
    have hdown : (-((i : ℕ) - (1074 : ℤ))).toNat = j := by omega
    rw [hup, hdown]
    simp [Nat.pow_add]

theorem roundUnits_grid (q i : ℕ) :
    roundUnits (⟨q, (i : ℤ) - 1074⟩ : Decimal).unitsNumerator
      (⟨q, (i : ℤ) - 1074⟩ : Decimal).unitsDenominator = roundUnits (q * 10 ^ i) finestSteps :=
  roundUnits_congr (Decimal.unitsDenominator_pos _) finestSteps_pos (unitsNumerator_grid q i)

/-! ### The shortest decimal -/

theorem readsBack_of_onGrid {n i q : ℕ} (h : onGrid n i = some q) : ReadsBack n i q := by
  unfold onGrid at h
  dsimp only at h
  split at h
  · next hupper =>
    split at h
    · next hlower =>
      cases h
      exact hlower.1
    · cases h
      exact hupper
  · split at h
    · next hlower =>
      cases h
      exact hlower
    · cases h

/-- The search ends on the first grid on which a decimal is found, or on the finest. -/
theorem firstFrom_cases (found : ℕ → Option ℕ) (finest : Decimal) (i : ℕ) :
    (firstFrom found finest i = finest ∧ ∀ k, 0 < k → k ≤ i → found k = none) ∨
      ∃ j q, j ≤ i ∧ found j = some q ∧ firstFrom found finest i = ⟨q, (j : ℕ) - 1074⟩ ∧
        ∀ k, j < k → k ≤ i → found k = none := by
  induction i with
  | zero => exact .inl ⟨rfl, fun k hpos hle => absurd hpos (by omega)⟩
  | succ i ih =>
    rw [firstFrom]
    cases hfound : found (i + 1) with
    | some q => exact .inr ⟨i + 1, q, Nat.le_refl _, hfound, rfl, fun k hlt hle => by omega⟩
    | none =>
      have hnext : ∀ {k}, (k ≤ i → found k = none) → k ≤ i + 1 → found k = none := by
        intro k hk hle
        rcases Nat.le_succ_iff.1 hle with hle | rfl
        · exact hk hle
        · exact hfound
      obtain ⟨hfinest, hnone⟩ | ⟨j, q, hj, hq, hfirst, hnone⟩ := ih
      · exact .inl ⟨hfinest, fun k hpos => hnext (hnone k hpos)⟩
      · exact .inr ⟨j, q, Nat.le_succ_of_le hj, hq, hfirst, fun k hlt => hnext (hnone k hlt)⟩

/-- Wherever the search for the shortest decimal ends, it has found one that is read back. -/
theorem roundUnits_shortestFrom {n : ℕ} (hn : spacing n ∣ n) (i : ℕ) :
    roundUnits (shortestFrom n i).unitsNumerator (shortestFrom n i).unitsDenominator = n := by
  obtain ⟨hfinest, -⟩ | ⟨j, q, -, hq, hfound, -⟩ :=
    firstFrom_cases (onGrid n) ⟨n * finestSteps, -1074⟩ i
  · have hgrid := roundUnits_grid (n * finestSteps) 0
    rw [Nat.pow_zero, Nat.mul_one, roundUnits_of_dvd finestSteps_pos hn,
      show ((0 : ℕ) : ℤ) - 1074 = -1074 from rfl] at hgrid
    rw [shortestFrom, hfinest]
    exact hgrid
  · rw [shortestFrom, hfound]
    exact (roundUnits_grid q j).trans (readsBack_of_onGrid hq)

/-- The shortest decimal of a magnitude is read as the magnitude. -/
theorem toBinary64_shortest (negative : Bool) (m : Magnitude) :
    m.shortest.toBinary64 negative = .finite negative m :=
  Decimal.toBinary64_eq_of_roundUnits negative (roundUnits_shortestFrom m.representable.1 _)

end Binary64

/-! ### Digits -/

namespace Numeral

theorem isDigits_replicate_zero (n : ℕ) : IsDigits (List.replicate n '0') := by
  intro c hc
  rw [List.eq_of_mem_replicate hc]
  decide

theorem isDigits_toDigits (n : ℕ) : IsDigits (Nat.toDigits 10 n) := fun _ hc =>
  Nat.isDigit_of_mem_toDigits (by decide) (by decide) hc

theorem spellsSign_signText (negative : Bool) :
    SpellsSign (Binary64.signText negative) negative := by
  cases negative with
  | true => exact .minus
  | false => exact .none

end Numeral

/-! ### Plain text -/

open Numeral

theorem valueOfDigits_append (s t : List Char) :
    valueOfDigits (s ++ t) = valueOfDigits s * 10 ^ t.length + valueOfDigits t := by
  rw [valueOfDigits, Nat.ofDigitChars_append, Nat.ofDigitChars_eq_ofDigitChars_zero, Nat.mul_comm]
  rfl

theorem valueOfDigits_zeros (n : ℕ) : valueOfDigits (List.replicate n '0') = 0 := by
  rw [valueOfDigits, Nat.ofDigitChars_replicate_zero, Nat.mul_zero]

theorem valueOfDigits_append_zeros (digits : List Char) (n : ℕ) :
    valueOfDigits (digits ++ List.replicate n '0') = valueOfDigits digits * 10 ^ n := by
  rw [valueOfDigits_append, valueOfDigits_zeros, List.length_replicate, Nat.add_zero]

theorem valueOfDigits_zeros_append (n : ℕ) (digits : List Char) :
    valueOfDigits (List.replicate n '0' ++ digits) = valueOfDigits digits := by
  rw [valueOfDigits_append, valueOfDigits_zeros, Nat.zero_mul, Nat.zero_add]

/-- The digits of a plain text before and after its point, and what they spell. -/
theorem Decimal.plainText_spec (d : Decimal) :
    ∃ whole fraction, IsDigits whole ∧ IsDigits fraction ∧ whole ≠ [] ∧
      d.plainText = whole ++ (if fraction = [] then [] else '.' :: fraction) ∧
      valueOfDigits (whole ++ fraction) = d.digits * 10 ^ d.exponent.toNat ∧
      fraction.length = (-d.exponent).toNat := by
  have hdigits := isDigits_toDigits d.digits
  have hvalue : valueOfDigits (Nat.toDigits 10 d.digits) = d.digits := Nat.ofDigitChars_ten_toDigits
  have hne : Nat.toDigits 10 d.digits ≠ [] := Nat.toDigits_ne_nil
  unfold plainText
  dsimp only
  generalize Nat.toDigits 10 d.digits = digits at *
  generalize hplaces : (-d.exponent).toNat = places
  split
  · next hzero =>
    refine ⟨digits ++ List.replicate d.exponent.toNat '0', [],
      hdigits.append (isDigits_replicate_zero _), by simp [IsDigits], by simp [hne], by simp, ?_,
      hzero.symm⟩
    rw [List.append_nil, valueOfDigits_append_zeros, hvalue]
  · next hpoint =>
    have hexponent : d.exponent.toNat = 0 := by omega
    rw [hexponent, Nat.pow_zero, Nat.mul_one]
    split
    · next hshort =>
      refine ⟨['0'], List.replicate (places - digits.length) '0' ++ digits,
        isDigits_replicate_zero 1, (isDigits_replicate_zero _).append hdigits, by simp, ?_, ?_, ?_⟩
      · simp [hne]
      · rw [← List.append_assoc]
        exact (valueOfDigits_zeros_append (places - digits.length + 1) digits).trans hvalue
      · simp
        omega
    · next hlong =>
      refine ⟨digits.take (digits.length - places), digits.drop (digits.length - places),
        fun c hc => hdigits c (List.mem_of_mem_take hc),
        fun c hc => hdigits c (List.mem_of_mem_drop hc), ?_, ?_, ?_, ?_⟩
      · simp [hne]
        omega
      · rw [if_neg (by simp; omega)]
      · rw [List.take_append_drop, hvalue]
      · simp
        omega

/-- A sign, digits, and a point with digits if there are any, are one numeral. -/
theorem Numeral.leading?_signText_append {whole fraction : List Char} (negative : Bool)
    (hw : IsDigits whole) (hf : IsDigits fraction) (hne : whole ≠ []) :
    leading? (Binary64.signText negative ++
        (whole ++ if fraction = [] then [] else '.' :: fraction)) =
      some ⟨negative, whole, fraction, 0⟩ := by
  have hdecimals : SpellsDecimals (whole ++ if fraction = [] then [] else '.' :: fraction)
      whole fraction := by
    split
    · next hnil =>
      rw [hnil, List.append_nil]
      exact .whole hw hne
    · exact .point hw hne hf
  have hspells := Spells.mk (n := ⟨negative, whole, fraction, 0⟩) (spellsSign_signText negative)
    hdecimals .none
  rw [List.append_nil] at hspells
  exact hspells.leading?_eq

/-- The plain text of a decimal is read as the decimal. -/
theorem Value.leadingNumber_signText_append (negative : Bool) (d : Decimal) :
    leadingNumber (Binary64.signText negative ++ d.plainText) = some (d.toBinary64 negative) := by
  obtain ⟨whole, fraction, hw, hf, hne, htext, hvalue, hlength⟩ := d.plainText_spec
  have hleading := leading?_signText_append negative hw hf hne
  rw [← htext] at hleading
  rw [leadingNumber, hleading]
  refine congrArg some ?_
  show Decimal.toBinary64 negative ⟨_, _⟩ = _
  rw [Decimal.toBinary64_eq_round, Decimal.toBinary64_eq_round]
  congr 1
  · rw [Decimal.unitsNumerator, Decimal.unitsNumerator, hvalue]
    simp
  · rw [Decimal.unitsDenominator, Decimal.unitsDenominator, ← hlength]
    simp

/-- The plain text of a finite number is read as the number. -/
theorem Value.leadingNumber_plainText {x : Binary64} (hx : x.isFinite = true) :
    leadingNumber x.plainText = some x := by
  cases x with
  | nan => simp at hx
  | infinite negative => simp at hx
  | finite negative m =>
    rw [Binary64.plainText, Binary64.Magnitude.plainText]
    split
    · next hzero =>
      have hread := leadingNumber_signText_append negative ⟨0, 0⟩
      have hvalue : Decimal.toBinary64 negative ⟨0, 0⟩ = Binary64.signedZero negative := if_pos rfl
      have hmagnitude : m = ⟨0, Binary64.isRepresentable_zero⟩ :=
        Binary64.Magnitude.eq_of_units_eq hzero
      rw [hmagnitude]
      rwa [hvalue] at hread
    · rw [leadingNumber_signText_append, Binary64.toBinary64_shortest]

end CssTransform
