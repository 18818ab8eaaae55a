import CssTransform.Proofs.Numeric.Shortest

/-!
# Canonical texts of numbers

The text of an entry has no digit that could be left out: no zero in front of other digits, none at
the end of the places, no sign on a zero. And it has at most six places, although nothing in its
making cuts digits off.

## Which choice is load-bearing

Six places are enough for two unlike reasons. A number that was rounded is a quotient of a whole
number and a million, so a decimal with six places reads back to it. A number too large to be rounded
lies where neighbouring numbers are more than a millionth apart, so some decimal with six places is
nearer to it than to any other. In both cases the shortest decimal has no more places than that one.

## Main definitions

* `IsWholeText`, `IsFractionText` — digits before and after a point, none of them idle
* `IsCanonicalNumber` — the text of a number with a limited count of places

## Main results

* `Decimal.isCanonicalNumber_plainText` — decimals that do not end in zero
* `Binary64.readsBack_sixPlaces` — a decimal with six places reads back to every number written
* `Binary64.isCanonicalNumber_entryText` — the text of every finite entry
-/

namespace CssTransform

open Numeral (IsDigits)
open Binary64 (signText)

/-! ### Canonical texts -/

/-- Digits before a point, with no idle zero in front. -/
inductive IsWholeText : List Char → Prop
  | zero : IsWholeText ['0']
  | nonzero {c : Char} {digits : List Char} (hc : c.isDigit = true) (hne : c ≠ '0')
      (hdigits : IsDigits digits) : IsWholeText (c :: digits)

/-- Digits after a point, with no idle zero at the end. -/
inductive IsFractionText : List Char → Prop
  | mk {digits : List Char} {c : Char} (hdigits : IsDigits digits) (hc : c.isDigit = true)
      (hne : c ≠ '0') : IsFractionText (digits ++ [c])

/-- The text of a number with at most so many places, and no sign on a zero. -/
inductive IsCanonicalNumber (places : ℕ) : List Char → Prop
  | zero : IsCanonicalNumber places ['0']
  | whole (negative : Bool) {whole : List Char} (hwhole : IsWholeText whole) (hne : whole ≠ ['0']) :
      IsCanonicalNumber places (signText negative ++ whole)
  | fraction (negative : Bool) {whole fraction : List Char} (hwhole : IsWholeText whole)
      (hfraction : IsFractionText fraction) (hplaces : fraction.length ≤ places) :
      IsCanonicalNumber places (signText negative ++ (whole ++ '.' :: fraction))

theorem IsWholeText.isDigits {text : List Char} (h : IsWholeText text) : IsDigits text := by
  cases h with
  | zero => exact Numeral.isDigits_replicate_zero 1
  | nonzero hc hne hdigits => exact List.forall_mem_cons.2 ⟨hc, hdigits⟩

theorem IsFractionText.isDigits {text : List Char} (h : IsFractionText text) : IsDigits text := by
  cases h with
  | mk hdigits hc hne =>
    exact hdigits.append (List.forall_mem_cons.2 ⟨hc, nofun⟩)

/-! ### Digits of a natural number -/

section Digits

variable {n : ℕ}

theorem digitChar_ne_zero {d : ℕ} (hd : d < 10) (hne : d ≠ 0) : Nat.digitChar d ≠ '0' := by
  revert d
  decide

theorem toDigits_of_ten_le (hn : 10 ≤ n) :
    Nat.toDigits 10 n = Nat.toDigits 10 (n / 10) ++ [Nat.digitChar (n % 10)] := by
  rw [Nat.toDigits_eq_if (by decide), if_neg (by omega)]

theorem toDigits_of_lt_ten (hn : n < 10) : Nat.toDigits 10 n = [Nat.digitChar n] := by
  rw [Nat.toDigits_eq_if (by decide), if_pos hn]

/-- The first digit of a positive number is no zero. -/
theorem exists_toDigits_eq_cons (hn : n ≠ 0) :
    ∃ c digits, Nat.toDigits 10 n = c :: digits ∧ c ≠ '0' := by
  induction n using Nat.strong_induction_on with
  | _ n ih =>
    rcases Nat.lt_or_ge n 10 with hlt | hge
    · exact ⟨_, _, toDigits_of_lt_ten hlt, digitChar_ne_zero hlt hn⟩
    · obtain ⟨c, digits, hdigits, hc⟩ := ih (n / 10) (by omega) (by omega)
      rw [toDigits_of_ten_le hge, hdigits]
      exact ⟨c, _, rfl, hc⟩

/-- The last digit is a zero only if the number ends in zero. -/
theorem exists_toDigits_eq_concat (hn : n % 10 ≠ 0) :
    ∃ digits c, Nat.toDigits 10 n = digits ++ [c] ∧ c ≠ '0' := by
  rcases Nat.lt_or_ge n 10 with hlt | hge
  · exact ⟨[], _, toDigits_of_lt_ten hlt, digitChar_ne_zero hlt (by omega)⟩
  · exact ⟨_, _, toDigits_of_ten_le hge, digitChar_ne_zero (Nat.mod_lt _ (by decide)) hn⟩

/-- The digits of a positive number, from the first on, with any digits behind them. -/
theorem isWholeText_toDigits_append (hn : n ≠ 0) {digits : List Char} (h : IsDigits digits) :
    IsWholeText (Nat.toDigits 10 n ++ digits) := by
  obtain ⟨c, rest, heq, hc⟩ := exists_toDigits_eq_cons hn
  have hall := Numeral.isDigits_toDigits n
  rw [heq] at hall ⊢
  obtain ⟨hdigit, hrest⟩ := List.forall_mem_cons.1 hall
  exact .nonzero hdigit hc (IsDigits.append hrest h)

/-- The last digits of a number that does not end in zero, with any digits before them. -/
theorem isFractionText_append_drop (hn : n % 10 ≠ 0) {digits : List Char} (h : IsDigits digits)
    {k : ℕ} (hk : k < (Nat.toDigits 10 n).length) :
    IsFractionText (digits ++ (Nat.toDigits 10 n).drop k) := by
  obtain ⟨front, c, heq, hc⟩ := exists_toDigits_eq_concat hn
  have hall := Numeral.isDigits_toDigits n
  rw [heq] at hall hk ⊢
  rw [List.length_append, List.length_singleton] at hk
  rw [List.drop_append_of_le_length (by omega), ← List.append_assoc]
  refine .mk (h.append fun d hd => ?_) (hall c (by simp)) hc
  exact hall d (List.mem_append_left _ (List.mem_of_mem_drop hd))

end Digits

/-! ### Decimals -/

/-- The plain text of a decimal that does not end in zero is canonical. -/
theorem Decimal.isCanonicalNumber_plainText {d : Decimal} (hd : d.digits % 10 ≠ 0) {places : ℕ}
    (hplaces : (-d.exponent).toNat ≤ places) (negative : Bool) :
    IsCanonicalNumber places (signText negative ++ d.plainText) := by
  have hne : d.digits ≠ 0 := by
    intro hzero
    rw [hzero] at hd
    exact hd rfl
  have hlength : 0 < (Nat.toDigits 10 d.digits).length :=
    List.length_pos_iff.2 Nat.toDigits_ne_nil
  unfold plainText
  dsimp only
  split_ifs with hwhole hshort
  · -- zeros behind the digits: a whole number
    refine .whole negative (isWholeText_toDigits_append hne (Numeral.isDigits_replicate_zero _)) ?_
    obtain ⟨c, digits, heq, hc⟩ := exists_toDigits_eq_cons hne
    rw [heq]
    intro h
    exact hc (List.cons.inj h).1
  · -- zeros between the point and the digits
    have hfraction := isFractionText_append_drop hd (k := 0)
      (Numeral.isDigits_replicate_zero ((-d.exponent).toNat - (Nat.toDigits 10 d.digits).length))
      hlength
    rw [List.drop_zero] at hfraction
    refine .fraction negative .zero hfraction ?_
    show (List.replicate _ _ ++ _).length ≤ places
    rw [List.length_append, List.length_replicate]
    omega
  · -- the point between two digits
    generalize hcut : (Nat.toDigits 10 d.digits).length - (-d.exponent).toNat = cut
    have hnone : IsDigits [] := nofun
    have hfraction := isFractionText_append_drop hd hnone (k := cut) (by omega)
    refine .fraction negative ?_ hfraction ?_
    · obtain ⟨c, digits, heq, hc⟩ := exists_toDigits_eq_cons hne
      have hall := Numeral.isDigits_toDigits d.digits
      rw [heq] at hall ⊢
      obtain ⟨hdigit, hdigits⟩ := List.forall_mem_cons.1 hall
      obtain ⟨k, rfl⟩ : ∃ k, cut = k + 1 := ⟨cut - 1, by omega⟩
      rw [List.take_succ_cons]
      exact .nonzero hdigit hc fun e he => hdigits e (List.mem_of_mem_take he)
    · rw [List.length_drop]
      omega

/-! ### Entries -/

namespace Binary64

-- the counts are never to be written out
attribute [local irreducible] unitsPerOne finestSteps

/-- The grid of millionths. -/
def millionths : ℕ := 1068

theorem readsBack_millionths_iff {n q : ℕ} :
    ReadsBack n millionths q ↔ roundUnits (q * unitsPerOne) 1000000 = n := by
  have hexponent : ((millionths : ℕ) : ℤ) - 1074 = -6 := rfl
  rw [ReadsBack, Nat.pow_eq, ← roundUnits_grid, hexponent]
  simp [Decimal.unitsNumerator, Decimal.unitsDenominator]

/-- A decimal with six places reads back to every number rounded to six places. -/
theorem readsBack_sixPlaces {n : ℕ} (hn : spacing n ∣ n) :
    ∃ q, ReadsBack (sixPlaces n) millionths q := by
  by_cases hlt : roundUnits (n * 1000000) 1 < 2 ^ 53 * unitsPerOne
  · exact ⟨_, readsBack_millionths_iff.2 (sixPlaces_of_whole hlt rfl).symm⟩
  · -- the number is written as it is, and from `2 ^ 33` on
    have hself : sixPlaces n = n := by
      unfold sixPlaces
      exact if_neg hlt
    have hlarge : 2 ^ 33 * unitsPerOne ≤ n := by
      by_contra hless
      have hround : roundUnits (n * 1000000) 1 ≤ 2 ^ 33 * 1000000 * unitsPerOne :=
        roundUnits_le (by decide) (isRepresentable_whole (by decide)).1 (by omega)
      omega
    rw [hself]
    refine ⟨nearestEven (n * 1000000) unitsPerOne, readsBack_millionths_iff.2 ?_⟩
    exact roundUnits_eq_of_half hn hlarge (le_nearestEven unitsPerOne_pos (by omega))
      nearestEven_mul_le (le_nearestEven_mul unitsPerOne_pos)

/-- **The text of every finite entry** is canonical and has at most six places. -/
theorem isCanonicalNumber_entryText {x : Binary64} (hx : x.isFinite = true) :
    IsCanonicalNumber 6 x.entryText := by
  rw [entryText_eq]
  cases x with
  | nan => cases hx
  | infinite negative => cases hx
  | finite negative m =>
    obtain hzero | ⟨m', hm', hunits, hne, -⟩ := written_finite negative m
    · rw [hzero]
      exact .zero
    · obtain ⟨q, hq⟩ := readsBack_sixPlaces m.representable.1
      rw [← hunits] at hq
      obtain ⟨j, d, hj, hshortest, hd⟩ := exists_shortest m' hne (by decide) hq
      rw [hm', plainText, Magnitude.plainText, if_neg hne, hshortest]
      refine Decimal.isCanonicalNumber_plainText hd ?_ negative
      show (-((j : ℤ) - 1074)).toNat ≤ 6
      unfold millionths at hj
      omega

end Binary64

end CssTransform
