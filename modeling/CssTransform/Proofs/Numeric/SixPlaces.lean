import CssTransform.Matrix.Text
import CssTransform.Proofs.Numeric.Rounding

/-!
# Rounding to six places, twice

A number rounded to six places is the quotient of a whole number and a million, rounded. Rounding
it to six places once more multiplies it by a million again, and that product is rounded too. Up to
`2 ^ 32` both errors together stay below one half and the whole number comes back; from
`2 ^ 52 / 10 ^ 6` on whatever whole number comes back is read as the same number again. Between the
two lies a stretch in which the product is a multiple of one half, and there the second rounding can
move a number to its neighbour.

## Which choice is load-bearing

The stretch is described in exact arithmetic, by the fraction of the exact millionfold: between a
quarter and a half the product is rounded up to a half and the half is rounded up to the next whole
number. At a quarter itself the tie goes to the even neighbour, which is the whole number.

## Main definitions

* `Binary64.sixPlaces` — rounding to six places, on counts of units
* `Binary64.IsUnsteadyCount` — the counts that a second rounding moves

## Main results

* `Binary64.sixPlaces_sixPlaces_eq_iff` — a second rounding moves exactly those
-/

namespace CssTransform

namespace Binary64

/-! ### Counts -/

/-- The count of units of a number rounded to six places, given its own. -/
def sixPlaces (n : ℕ) : ℕ :=
  let scaled := roundUnits (n * 1000000) 1
  if scaled < 2 ^ 53 * unitsPerOne then
    roundUnits ((2 * scaled + unitsPerOne) / (2 * unitsPerOne) * unitsPerOne) 1000000
  else n

/-- From `2 ^ 32` on and as long as the millionfold is below `2 ^ 52`, with the fraction of the
exact millionfold between a quarter and a half. -/
def IsUnsteadyCount (n : ℕ) : Prop :=
  2 ^ 32 * unitsPerOne ≤ n ∧ n * 1000000 < 2 ^ 52 * unitsPerOne ∧
    unitsPerOne < 4 * (n * 1000000 % unitsPerOne) ∧ 2 * (n * 1000000 % unitsPerOne) < unitsPerOne

instance (n : ℕ) : Decidable (IsUnsteadyCount n) := inferInstanceAs (Decidable (_ ∧ _))

theorem exists_unitsPerOne_eq_mul {k : ℕ} (hk : k ≤ 1074) :
    ∃ g, g + k = 1074 ∧ unitsPerOne = 2 ^ k * 2 ^ g := by
  unfold unitsPerOne
  generalize 1074 = p at hk ⊢
  refine ⟨p - k, Nat.sub_add_cancel hk, ?_⟩
  rw [← Nat.pow_add, Nat.add_sub_cancel' hk]
  rfl

theorem two_pow_mul_unitsPerOne (i : ℕ) : 2 ^ i * unitsPerOne = 2 ^ (i + 1074) := by
  unfold unitsPerOne
  generalize 1074 = p
  exact (Nat.pow_add ..).symm

theorem spacing_dvd_two_pow_mul_unitsPerOne (i : ℕ) :
    spacing (2 ^ i * unitsPerOne) ∣ 2 ^ i * unitsPerOne := by
  rw [two_pow_mul_unitsPerOne]
  exact spacing_dvd_two_pow _

/-- Below `2 ^ i` the spacing is at most `2 ^ (i - 53)`. -/
theorem spacing_le_of_lt {n i : ℕ} (hi : i ≤ 53) (h : n < 2 ^ i * unitsPerOne) :
    2 ^ (53 - i) * spacing n ≤ unitsPerOne := by
  obtain ⟨g, hg, hunits⟩ := exists_unitsPerOne_eq_mul (k := 53 - i) (by omega)
  rw [two_pow_mul_unitsPerOne, show i + 1074 = g + 53 by omega] at h
  rw [hunits]
  exact Nat.mul_le_mul_left _ (spacing_le_two_pow h)

/-- From `2 ^ i` on and below twice that the spacing is `2 ^ (i - 52)`. -/
theorem spacing_eq_of_lt {n i : ℕ} (hi : i ≤ 52) (hlow : 2 ^ i * unitsPerOne ≤ n)
    (hhigh : n < 2 * (2 ^ i * unitsPerOne)) : 2 ^ (52 - i) * spacing n = unitsPerOne := by
  refine Nat.le_antisymm ?_ ?_
  · rw [← Nat.mul_assoc, ← Nat.pow_succ'] at hhigh
    have hle := spacing_le_of_lt (i := i + 1) (by omega) hhigh
    rwa [show 53 - (i + 1) = 52 - i by omega] at hle
  · obtain ⟨g, hg, hunits⟩ := exists_unitsPerOne_eq_mul (k := 52 - i) (by omega)
    rw [two_pow_mul_unitsPerOne, show i + 1074 = g + 52 by omega] at hlow
    rw [hunits]
    exact Nat.mul_le_mul_left _ (Nat.le_of_dvd (spacing_pos n) (two_pow_dvd_spacing hlow))

/-! ### A rounded quotient by a million -/

section

variable {n y : ℕ}

/-- A count that is `n` millionths, rounded. -/
def IsMillionths (n y : ℕ) : Prop := y = roundUnits (n * unitsPerOne) 1000000

theorem two_pow_mul_unitsPerOne_le {i : ℕ} (h : IsMillionths n y)
    (hn : 2 ^ i * unitsPerOne ≤ n * unitsPerOne / 1000000) : 2 ^ i * unitsPerOne ≤ y := by
  rw [h]
  exact le_roundUnits (by decide) (spacing_dvd_two_pow_mul_unitsPerOne i)
    ((Nat.le_div_iff_mul_le (by decide)).1 hn)

/-- Below `2 ^ i` the millionfold of such a count is off by at most half a million spacings. -/
theorem IsMillionths.error {i : ℕ} (hi : i ≤ 53) (h : IsMillionths n y)
    (hy : y < 2 ^ i * unitsPerOne) :
    ∃ s, 2 ^ (53 - i) * s ≤ unitsPerOne ∧
      2 * (y * 1000000) ≤ 2 * (n * unitsPerOne) + 1000000 * s ∧
      2 * (n * unitsPerOne) ≤ 2 * (y * 1000000) + 1000000 * s := by
  refine ⟨spacing (n * unitsPerOne / 1000000), spacing_le_of_lt hi ?_, ?_, ?_⟩
  · by_contra hge
    have := two_pow_mul_unitsPerOne_le h (Nat.not_lt.1 hge)
    omega
  · rw [h]
    exact roundUnits_error_above _ _
  · rw [h]
    exact roundUnits_error_below (by decide)

/-! ### The whole number of a second rounding -/

theorem div_two_mul_eq {m k u : ℕ} (hlow : 2 * (k * u) ≤ m) (hhigh : m < 2 * (k * u) + 2 * u) :
    m / (2 * u) = k := by
  refine Nat.div_eq_of_lt_le ?_ ?_
  · calc k * (2 * u) = 2 * (k * u) := by ring
      _ ≤ m := hlow
  · calc m < 2 * (k * u) + 2 * u := hhigh
      _ = (k + 1) * (2 * u) := by ring

/-- Below `2 ^ 51` millionths the whole number comes back. -/
theorem IsMillionths.whole_of_lt (h : IsMillionths n y)
    (hy : y * 1000000 < 2 ^ 51 * unitsPerOne) :
    (2 * roundUnits (y * 1000000) 1 + unitsPerOne) / (2 * unitsPerOne) = n := by
  obtain ⟨s, hs, hup, hdown⟩ := h.error (i := 32) (by decide) (by omega)
  have hspacing := spacing_le_of_lt (i := 51) (by decide) hy
  have habove := roundUnits_error_above (y * 1000000) 1
  have hbelow := roundUnits_error_below (a := y * 1000000) (b := 1) (by decide)
  have hpos := unitsPerOne_pos
  rw [Nat.div_one] at habove hbelow
  exact div_two_mul_eq (by omega) (by omega)

/-- Between `2 ^ 51` and `2 ^ 52` millionths the millionfold is rounded to a multiple of one half,
and then to a whole number. -/
theorem whole_of_half {m half : ℕ} (hhalf : 0 < half) (hspacing : spacing m = half) :
    (2 * roundUnits m 1 + 2 * half) / (2 * (2 * half)) =
      m / (2 * half) + if 2 * (m % (2 * half)) ≤ half then 0 else 1 := by
  have hround : roundUnits m 1 = nearestEven m half * half := by
    rw [roundUnits, Nat.div_one, Nat.one_mul, hspacing]
  have hquot :
      (2 * roundUnits m 1 + 2 * half) / (2 * (2 * half)) = (nearestEven m half + 1) / 2 := by
    rw [hround, show 2 * (nearestEven m half * half) + 2 * half =
      (nearestEven m half + 1) * (2 * half) by ring, Nat.mul_div_mul_right _ _ (by omega)]
  have hdiv : m / (2 * half) = m / half / 2 := by rw [Nat.mul_comm, Nat.div_div_eq_div_mul]
  have hmod : m % (2 * half) = m % half + half * (m / half % 2) := by
    rw [Nat.mul_comm, Nat.mod_mul]
  have hlt := Nat.mod_lt m hhalf
  rw [hquot, hdiv, hmod]
  rcases Nat.mod_two_eq_zero_or_one (m / half) with hpar | hpar
  · rw [hpar, Nat.mul_zero, Nat.add_zero, nearestEven]
    split_ifs <;> omega
  · rw [hpar, Nat.mul_one, if_neg (by omega), nearestEven]
    split_ifs <;> omega

theorem eq_of_mul_lt {k m u : ℕ} (hkm : k * u < m * u + u) (hmk : m * u < k * u + u) : k = m := by
  rw [← Nat.succ_mul] at hkm hmk
  have hle := Nat.lt_succ_iff.1 (Nat.lt_of_mul_lt_mul_right hkm)
  have hge := Nat.lt_succ_iff.1 (Nat.lt_of_mul_lt_mul_right hmk)
  exact Nat.le_antisymm hle hge

theorem sixPlaces_of_whole {k : ℕ} (hlt : roundUnits (y * 1000000) 1 < 2 ^ 53 * unitsPerOne)
    (hk : (2 * roundUnits (y * 1000000) 1 + unitsPerOne) / (2 * unitsPerOne) = k) :
    sixPlaces y = roundUnits (k * unitsPerOne) 1000000 := by
  unfold sixPlaces
  dsimp only
  rw [if_pos hlt, hk]

/-- Between `2 ^ 51` and `2 ^ 52` millionths a second rounding moves the count exactly when the
fraction of the millionfold is above a quarter and below a half. -/
theorem IsMillionths.sixPlaces_eq_iff_of_half (h : IsMillionths n y)
    (hlow : 2 ^ 51 * unitsPerOne ≤ y * 1000000) (hhigh : y * 1000000 < 2 ^ 52 * unitsPerOne) :
    sixPlaces y = y ↔ ¬(unitsPerOne < 4 * (y * 1000000 % unitsPerOne) ∧
      2 * (y * 1000000 % unitsPerOne) < unitsPerOne) := by
  obtain ⟨s, hs, hup, hdown⟩ := h.error (i := 33) (by decide) (by omega)
  have hspacing := spacing_eq_of_lt (i := 51) (by decide) hlow (by omega)
  have hhalf := spacing_pos (y * 1000000)
  have hround : roundUnits (y * 1000000) 1 ≤ 2 ^ 52 * unitsPerOne :=
    roundUnits_le (by decide) (spacing_dvd_two_pow_mul_unitsPerOne 52) (by omega)
  have hwhole := whole_of_half hhalf rfl
  generalize spacing (y * 1000000) = half at *
  have hunits : 2 * half = unitsPerOne := hspacing
  rw [hunits] at hwhole
  have hsix := sixPlaces_of_whole (by omega) hwhole
  have hsplit := Nat.div_add_mod' (y * 1000000) unitsPerOne
  have hmod := Nat.mod_lt (y * 1000000) unitsPerOne_pos
  split_ifs at hsix with hquarter
  · -- the fraction is at most a quarter: the whole number is the floor
    have hn : y * 1000000 / unitsPerOne = n := eq_of_mul_lt (u := unitsPerOne) (by omega) (by omega)
    rw [hsix, Nat.add_zero, hn, ← h]
    exact iff_of_true rfl (by omega)
  · rcases Nat.lt_or_ge (y * 1000000 % unitsPerOne) half with hless | hmore
    · -- the next whole number would have to be within half a spacing as well
      refine iff_of_false (fun heq => ?_) (by omega)
      have hnext : IsMillionths (y * 1000000 / unitsPerOne + 1) y := heq.symm.trans hsix
      obtain ⟨t, ht, -, hfar⟩ := hnext.error (i := 33) (by decide) (by omega)
      rw [Nat.succ_mul (y * 1000000 / unitsPerOne)] at hfar
      omega
    · have hsucc : (y * 1000000 / unitsPerOne + 1) * unitsPerOne =
          y * 1000000 / unitsPerOne * unitsPerOne + unitsPerOne := Nat.succ_mul _ _
      have hn : y * 1000000 / unitsPerOne + 1 = n :=
        eq_of_mul_lt (u := unitsPerOne) (by omega) (by omega)
      rw [hsix, hn, ← h]
      exact iff_of_true rfl (by omega)

/-- From `2 ^ 33` on a whole number within one half of the millionfold is read as the same count,
as representable counts lie more than a millionth apart. -/
theorem roundUnits_eq_of_half {k : ℕ} (hrep : spacing y ∣ y) (hy : 2 ^ 33 * unitsPerOne ≤ y)
    (hk : 2 ^ 33 * 1000000 ≤ k)
    (habove : 2 * (k * unitsPerOne) ≤ 2 * (y * 1000000) + unitsPerOne)
    (hbelow : 2 * (y * 1000000) ≤ 2 * (k * unitsPerOne) + unitsPerOne) :
    roundUnits (k * unitsPerOne) 1000000 = y := by
  obtain ⟨g, hg, hunits⟩ := exists_unitsPerOne_eq_mul (k := 19) (by decide)
  have hbinade : 2 ^ (g + 52) = 2 ^ 33 * unitsPerOne := by
    rw [two_pow_mul_unitsPerOne, show 33 + 1074 = g + 52 by omega]
  have hscaled := Nat.mul_le_mul_right unitsPerOne hk
  have hgap : 0 < 2 ^ g := Nat.two_pow_pos g
  refine roundUnits_eq_of_near (k := g) (by decide) hrep (hbinade ▸ hy) ?_ ?_ ?_
  · rw [hbinade]
    calc 2 ^ 33 * unitsPerOne * 1000000 = 2 ^ 33 * 1000000 * unitsPerOne := by ring
      _ ≤ k * unitsPerOne := hscaled
  · generalize 2 ^ g = gap at *
    omega
  · generalize 2 ^ g = gap at *
    omega

/-- From `2 ^ 52` millionths on the millionfold is a whole number already, and it is read as the
same count whether or not it is the whole number that the count came from. -/
theorem IsMillionths.sixPlaces_eq_of_le (h : IsMillionths n y)
    (hlow : 2 ^ 52 * unitsPerOne ≤ y * 1000000) : sixPlaces y = y := by
  rcases Nat.lt_or_ge (roundUnits (y * 1000000) 1) (2 ^ 53 * unitsPerOne) with hlt | hge
  · have hhigh : y * 1000000 < 2 ^ 53 * unitsPerOne := by
      by_contra hge
      have := le_roundUnits (a := y * 1000000) (b := 1) (by decide)
        (spacing_dvd_two_pow_mul_unitsPerOne 53) (by omega)
      omega
    have hspacing := spacing_eq_of_lt (i := 52) (by decide) hlow (by omega)
    obtain ⟨k, hk⟩ : ∃ k, k = nearestEven (y * 1000000) unitsPerOne := ⟨_, rfl⟩
    have hround : roundUnits (y * 1000000) 1 = k * unitsPerOne := by
      rw [roundUnits, Nat.div_one, Nat.one_mul, hk, ← hspacing]
      simp
    have hsix := sixPlaces_of_whole hlt (k := k)
      (div_two_mul_eq (by omega) (by have := unitsPerOne_pos; omega))
    have habove : 2 * (k * unitsPerOne) ≤ 2 * (y * 1000000) + unitsPerOne := hk ▸ nearestEven_mul_le
    have hbelow : 2 * (y * 1000000) ≤ 2 * (k * unitsPerOne) + unitsPerOne :=
      hk ▸ le_nearestEven_mul unitsPerOne_pos
    rw [hsix]
    rcases Nat.lt_or_ge y (2 ^ 33 * unitsPerOne) with hy | hy
    · obtain ⟨s, hs, hup, hdown⟩ := h.error (i := 33) (by decide) hy
      have hn : k = n := eq_of_mul_lt (u := unitsPerOne) (by omega) (by omega)
      rw [hn, ← h]
    · have hrep : spacing y ∣ y := by
        rw [h]
        exact spacing_dvd_roundUnits _ _
      exact roundUnits_eq_of_half hrep hy (hk ▸ le_nearestEven unitsPerOne_pos (by omega)) habove
        hbelow
  · unfold sixPlaces
    dsimp only
    rw [if_neg (by omega)]

/-- Below `2 ^ 32` the millionfold is nearer to a whole number than a quarter. -/
theorem IsMillionths.fraction_of_lt (h : IsMillionths n y) (hy : y < 2 ^ 32 * unitsPerOne) :
    ¬(unitsPerOne < 4 * (y * 1000000 % unitsPerOne) ∧
      2 * (y * 1000000 % unitsPerOne) < unitsPerOne) := by
  rintro ⟨hquarter, hhalf⟩
  obtain ⟨s, hs, hup, hdown⟩ := h.error (i := 32) (by decide) hy
  have hsplit := Nat.div_add_mod' (y * 1000000) unitsPerOne
  have hn : n = y * 1000000 / unitsPerOne := eq_of_mul_lt (u := unitsPerOne) (by omega) (by omega)
  rw [hn] at hup
  omega

theorem IsMillionths.sixPlaces_eq_iff (h : IsMillionths n y) :
    sixPlaces y = y ↔ ¬IsUnsteadyCount y := by
  rw [IsUnsteadyCount]
  rcases Nat.lt_or_ge (y * 1000000) (2 ^ 51 * unitsPerOne) with hlow | hlow
  · have hround : roundUnits (y * 1000000) 1 ≤ 2 ^ 51 * unitsPerOne :=
      roundUnits_le (by decide) (spacing_dvd_two_pow_mul_unitsPerOne 51) (by omega)
    have hpos := unitsPerOne_pos
    have hsix := sixPlaces_of_whole (by omega) (h.whole_of_lt hlow)
    exact iff_of_true (by rw [hsix, ← h]) (by omega)
  · rcases Nat.lt_or_ge (y * 1000000) (2 ^ 52 * unitsPerOne) with hhigh | hhigh
    · rw [h.sixPlaces_eq_iff_of_half hlow hhigh]
      refine not_congr ⟨fun hfraction => ⟨?_, hhigh, hfraction⟩, fun hunsteady => hunsteady.2.2⟩
      by_contra hless
      exact h.fraction_of_lt (Nat.not_le.1 hless) hfraction
    · exact iff_of_true (h.sixPlaces_eq_of_le hhigh) (by omega)

end

/-- A second rounding to six places moves exactly the unsteady counts. -/
theorem sixPlaces_sixPlaces_eq_iff (n : ℕ) :
    sixPlaces (sixPlaces n) = sixPlaces n ↔ ¬IsUnsteadyCount (sixPlaces n) := by
  rcases Nat.lt_or_ge (roundUnits (n * 1000000) 1) (2 ^ 53 * unitsPerOne) with hlt | hge
  · exact IsMillionths.sixPlaces_eq_iff (sixPlaces_of_whole hlt rfl)
  · have hself : sixPlaces n = n := by
      unfold sixPlaces
      dsimp only
      rw [if_neg (by omega)]
    rw [hself, hself]
    refine iff_of_true rfl fun ⟨_, hhigh, _⟩ => ?_
    have hround : roundUnits (n * 1000000) 1 ≤ 2 ^ 52 * unitsPerOne :=
      roundUnits_le (by decide) (spacing_dvd_two_pow_mul_unitsPerOne 52) (by omega)
    have hpos := unitsPerOne_pos
    omega

end Binary64

end CssTransform
