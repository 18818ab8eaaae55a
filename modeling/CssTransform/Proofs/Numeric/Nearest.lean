import CssTransform.Proofs.Numeric.Rounding
import Mathlib.Algebra.Order.Field.Basic
import Mathlib.Algebra.Order.Field.Rat
import Mathlib.Tactic.FieldSimp
import Mathlib.Tactic.Linarith

/-!
# Correct rounding

What it means to round a rational number correctly is told here without counts: the nearest finite
number is taken, of two equally near ones the one with the even significand, and from halfway
between the greatest finite number and the power of two above it on, the infinite one. `round` does
this, and nothing else does.

## Which choice is load-bearing

A count is even if *twice* its spacing divides it. In this form evenness passes from a rounded
quotient, which is told by the spacing at the quotient, to the count itself, whose spacing may be
twice as large.

## Main definitions

* `Binary64.Magnitude.value`, `Binary64.Magnitude.significand`
* `Binary64.IsNearest` — the finite magnitude that a number is rounded to
* `Binary64.IsRounding` — the number that a magnitude with a sign is rounded to

## Main results

* `Binary64.two_mul_spacing_dvd_of_tie` — ties go to the even neighbour
* `Binary64.roundUnits_lt_two_pow_iff` — what is rounded up to a power of two
* `Binary64.isRounding_round` — `round` rounds correctly
* `Binary64.IsRounding.unique` — there is one correct rounding
* `Binary64.IsRounding.eq_signedZero` — half the least number, or less, is rounded to zero
-/

namespace CssTransform

namespace Binary64

variable {a b : ℕ}

/-! ### Ties -/

/-- Of two multiples at the same distance from a quotient the nearest one is an even multiple. -/
theorem two_dvd_nearestEven_of_tie {j : ℕ} (hb : 0 < b) (hne : j ≠ nearestEven a b)
    (h : 2 * a = nearestEven a b * b + j * b) : 2 ∣ nearestEven a b := by
  have hdiv := Nat.div_add_mod' a b
  have hmod := Nat.mod_lt a hb
  simp only [nearestEven] at h hne ⊢
  generalize a / b = q at hdiv h hne
  split at h
  · next hbelow =>
    rw [if_pos hbelow] at hne
    rcases Nat.lt_or_gt_of_ne hne with hlt | hgt
    · have hmul := Nat.mul_le_mul_right b hlt
      rw [Nat.succ_mul] at hmul
      omega
    · have hmul := Nat.mul_le_mul_right b hgt
      rw [Nat.succ_mul] at hmul
      omega
  · next hbelow =>
    rw [if_neg hbelow] at hne ⊢
    split at h
    · next habove =>
      rw [if_pos habove] at hne
      rw [Nat.succ_mul q] at h
      rcases Nat.lt_or_gt_of_ne hne with hlt | hgt
      · have hmul := Nat.mul_le_mul_right b (Nat.le_of_lt_succ hlt)
        omega
      · have hmul := Nat.mul_le_mul_right b hgt
        rw [Nat.succ_mul, Nat.succ_mul q] at hmul
        omega
    · next habove =>
      rw [if_neg habove]
      omega

/-- An even multiple of the spacing at the quotient is even at its own spacing. -/
theorem two_mul_spacing_dvd_roundUnits (hb : 0 < b)
    (h : 2 ∣ nearestEven a (b * spacing (a / b))) :
    2 * spacing (roundUnits a b) ∣ roundUnits a b := by
  have hquot := Nat.lt_log2_self (n := a / b)
  have hle : roundUnits a b ≤ 2 ^ ((a / b).log2 + 1) := by
    refine roundUnits_le hb (spacing_dvd_two_pow _) ?_
    exact Nat.le_of_lt ((Nat.div_lt_iff_lt_mul hb).1 hquot)
  rcases Nat.eq_zero_or_pos (a / b) with hzero | hpos
  · -- no even count but zero is at most one
    have hone : roundUnits a b ≤ 1 := by
      refine roundUnits_le hb (spacing_dvd_two_pow 0) ?_
      have := (Nat.div_eq_zero_iff_lt hb).1 hzero
      omega
    have heven : 2 ∣ roundUnits a b := Nat.dvd_trans h (Nat.dvd_mul_right _ _)
    have hnil : roundUnits a b = 0 := by omega
    rw [hnil]
    exact Nat.dvd_zero _
  · have hge := Decimal.two_pow_log2_le_roundUnits (Nat.ne_of_gt hpos)
    rw [Nat.pow_eq] at hge
    rcases Nat.lt_or_eq_of_le hle with hlt | heq
    · have hlog : (roundUnits a b).log2 = (a / b).log2 := by
        have hne : roundUnits a b ≠ 0 := by
          have := Nat.two_pow_pos (a / b).log2
          omega
        have hlow := (Nat.le_log2 hne).2 hge
        have hhigh := (Nat.log2_lt hne).2 hlt
        omega
      have hspacing : spacing (roundUnits a b) = spacing (a / b) := by
        rw [spacing, spacing, hlog]
      rw [hspacing, roundUnits]
      exact Nat.mul_dvd_mul_right h _
    · -- the rounding has gone up to the next power of two
      rw [heq, spacing, Nat.log2_two_pow, Nat.pow_eq, ← Nat.pow_succ']
      exact Nat.pow_dvd_pow 2 (by omega)

/-- **Ties go to the even neighbour.** -/
theorem two_mul_spacing_dvd_of_tie {z : ℕ} (hb : 0 < b) (hz : spacing z ∣ z)
    (hne : z ≠ roundUnits a b) (h : 2 * a = roundUnits a b * b + z * b) :
    2 * spacing (roundUnits a b) ∣ roundUnits a b := by
  have hdvd : spacing (a / b) ∣ z := by
    rcases Nat.le_total a (z * b) with hle | hge
    · exact spacing_div_dvd hz hle
    · rcases spacing_div_dvd_or_lt (a := a) (b := b) hz with hdvd | hlt
      · exact hdvd
      · rcases Nat.eq_zero_or_pos (a / b) with hzero | hpos
        · have hz0 : z = 0 := by
            rw [hzero] at hlt
            simpa using hlt
          exact hz0 ▸ Nat.dvd_zero _
        · -- the power of two at which the binade begins would be nearer
          have hfloor : 2 ^ (a / b).log2 * b ≤ a :=
            (Nat.le_div_iff_mul_le hb).1 (Nat.log2_self_le (Nat.ne_of_gt hpos))
          have hnear := roundUnits_nearest_below hb (spacing_dvd_two_pow _) hfloor
          have hmul := (Nat.mul_lt_mul_right hb).2 hlt
          omega
  obtain ⟨j, rfl⟩ := hdvd
  have hspacing := spacing_pos (a / b)
  have hcomm : spacing (a / b) * j * b = j * (b * spacing (a / b)) := by ring
  rw [roundUnits_mul_eq, hcomm] at h
  refine two_mul_spacing_dvd_roundUnits hb (two_dvd_nearestEven_of_tie (Nat.mul_pos hb hspacing)
    (fun hj => hne ?_) h)
  rw [hj, roundUnits, Nat.mul_comm]

/-! ### Overflow -/

/-- **What is rounded up to a power of two**, or past it. The last count below the power has the odd
significand `2 ^ 53 - 1`, so halfway to the power, at `2 ^ 54 - 1` half spacings, is a tie that goes
up. -/
theorem roundUnits_lt_two_pow_iff (k : ℕ) (hb : 0 < b) :
    roundUnits a b < 2 ^ (k + 54) ↔ a < 18014398509481983 * 2 ^ k * b := by
  have hrepPower : spacing (2 ^ (k + 54)) ∣ 2 ^ (k + 54) := spacing_dvd_two_pow (k + 54)
  have hpower : 2 ^ (k + 54) = 18014398509481984 * 2 ^ k := by rw [Nat.pow_add, Nat.mul_comm]
  generalize 2 ^ (k + 54) = power at hrepPower hpower ⊢
  obtain ⟨last, hlast⟩ : ∃ m, m = 9007199254740991 * 2 ^ (k + 1) := ⟨_, rfl⟩
  have hdouble : last = 18014398509481982 * 2 ^ k := by rw [hlast, Nat.pow_succ]; ring
  have hrep : spacing last ∣ last := by
    rw [hlast]
    exact spacing_dvd_mul_two_pow (by decide) (k + 1)
  have hbinade : 2 ^ (k + 1 + 52) ≤ last := by
    rw [hlast, Nat.pow_add, Nat.mul_comm]
    exact Nat.mul_le_mul_right _ (by decide)
  have hpos := Nat.two_pow_pos k
  have hposb := Nat.mul_pos hpos hb
  have hpowerb : power * b = 18014398509481984 * (2 ^ k * b) := by rw [hpower]; ring
  have hlastb : last * b = 18014398509481982 * (2 ^ k * b) := by rw [hdouble]; ring
  rw [Nat.mul_assoc]
  constructor
  · intro hlt
    by_contra hge
    have hbelow : a ≤ power * b := by
      by_contra hgt
      have := le_roundUnits hb hrepPower (Nat.le_of_lt (Nat.lt_of_not_le hgt))
      omega
    have hnear := roundUnits_nearest_above hb hrepPower hbelow
    have heq : roundUnits a b = last := by
      have hle : last * b ≤ roundUnits a b * b := by omega
      rcases Nat.lt_or_eq_of_le (Nat.le_of_mul_le_mul_right hle hb) with hgt | heq
      · have hnext := add_two_pow_le hrep (spacing_dvd_roundUnits a b) hbinade hgt
        rw [Nat.pow_succ] at hnext
        omega
      · exact heq.symm
    rw [heq] at hnear
    have htie := two_mul_spacing_dvd_of_tie (a := a) hb hrepPower (by omega)
      (by rw [heq]; omega)
    have hdvd : 2 * 2 ^ (k + 1) ∣ 9007199254740991 * 2 ^ (k + 1) := by
      rw [heq] at htie
      exact hlast ▸ Nat.dvd_trans (Nat.mul_dvd_mul_left 2 (two_pow_dvd_spacing hbinade)) htie
    have hodd := Nat.dvd_of_mul_dvd_mul_right (Nat.two_pow_pos (k + 1)) hdvd
    omega
  · intro hlt
    rcases Nat.le_total a (last * b) with hle | hge
    · have := roundUnits_le hb hrep hle
      omega
    · have hnear := roundUnits_nearest_below hb hrep hge
      exact Nat.lt_of_mul_lt_mul_right (a := b) (by omega)

/-- The count halfway between the greatest finite one and the limit. -/
def overflowUnits : ℕ := 18014398509481983 * Nat.pow 2 2044

/-- What is rounded past all finite numbers. -/
theorem roundUnits_lt_unitLimit_iff (hb : 0 < b) :
    roundUnits a b < unitLimit ↔ a < overflowUnits * b := by
  -- the power of two is kept out of reach of evaluation
  obtain ⟨k, hk⟩ : ∃ k, k = 2044 := ⟨2044, rfl⟩
  unfold unitLimit overflowUnits
  rw [← hk, show 2098 = k + 54 by omega, Nat.pow_eq, Nat.pow_eq]
  exact roundUnits_lt_two_pow_iff k hb

/-! ### The nearest number -/

namespace Magnitude

/-- The number that a magnitude is. -/
def value (m : Magnitude) : ℚ := m.units / unitsPerOne

/-- The binary digits of a magnitude that count, fifty-three at most, as a whole number. -/
def significand (m : Magnitude) : ℕ := m.units / spacing m.units

theorem two_dvd_significand_iff {m : Magnitude} :
    2 ∣ m.significand ↔ 2 * spacing m.units ∣ m.units := by
  rw [significand, Nat.dvd_div_iff_mul_dvd m.representable.1, Nat.mul_comm]

end Magnitude

/-- From this number on, halfway from the greatest finite number to the power of two above it, no
finite number is taken. -/
def overflowBound : ℚ := 2 ^ 1024 - 2 ^ 970

/-- No finite magnitude is nearer to a number, and of two equally near ones this one has the even
significand. -/
structure IsNearest (q : ℚ) (m : Magnitude) : Prop where
  le (n : Magnitude) : |m.value - q| ≤ |n.value - q|
  even (n : Magnitude) : n ≠ m → |n.value - q| = |m.value - q| → 2 ∣ m.significand

/-- The number that a magnitude of any size, with a sign, is correctly rounded to. -/
inductive IsRounding (negative : Bool) (q : ℚ) : Binary64 → Prop
  | finite {m : Magnitude} (hq : q < overflowBound) (hm : IsNearest q m) :
      IsRounding negative q (.finite negative m)
  | infinite (hq : overflowBound ≤ q) : IsRounding negative q (.infinite negative)

theorem abs_value_sub (m : Magnitude) (hb : 0 < b) :
    |m.value - a / b / unitsPerOne| = |(m.units * b : ℚ) - a| / (b * unitsPerOne) := by
  have hU : (0 : ℚ) < unitsPerOne := Nat.cast_pos.2 unitsPerOne_pos
  have hb' : (0 : ℚ) < b := Nat.cast_pos.2 hb
  have hsub : m.value - a / b / unitsPerOne = ((m.units * b : ℚ) - a) / (b * unitsPerOne) := by
    rw [Magnitude.value]
    field_simp
  rw [hsub, abs_div, abs_of_pos (mul_pos hb' hU)]

/-- The rounding of a quotient is the nearest magnitude. -/
theorem isNearest_of_units_eq {m : Magnitude} (hb : 0 < b) (hm : m.units = roundUnits a b) :
    IsNearest (a / b / unitsPerOne) m where
  le n := by
    rw [abs_value_sub m hb, abs_value_sub n hb, hm]
    refine div_le_div_of_nonneg_right ?_ (mul_nonneg b.cast_nonneg unitsPerOne.cast_nonneg)
    have hn := n.representable.1
    rcases Nat.le_total (n.units * b) a with hle | hge
    · have hnear : (roundUnits a b * b + n.units * b : ℚ) ≤ 2 * a :=
        mod_cast roundUnits_nearest_below hb hn hle
      have hcross : (n.units * b : ℚ) ≤ roundUnits a b * b :=
        mod_cast Nat.mul_le_mul_right b (le_roundUnits hb hn hle)
      have hfar : a - (n.units * b : ℚ) ≤ |(n.units * b : ℚ) - a| := by
        rw [abs_sub_comm]
        exact le_abs_self _
      rw [abs_le]
      constructor <;> linarith
    · have hnear : (2 * a : ℚ) ≤ roundUnits a b * b + n.units * b :=
        mod_cast roundUnits_nearest_above hb hn hge
      have hcross : (roundUnits a b * b : ℚ) ≤ n.units * b :=
        mod_cast Nat.mul_le_mul_right b (roundUnits_le hb hn hge)
      have hfar := le_abs_self ((n.units * b : ℚ) - a)
      rw [abs_le]
      constructor <;> linarith
  even n hne htie := by
    have hne' : (b * unitsPerOne : ℚ) ≠ 0 :=
      mul_ne_zero (Nat.cast_ne_zero.2 hb.ne') (Nat.cast_ne_zero.2 unitsPerOne_pos.ne')
    rw [abs_value_sub m hb, abs_value_sub n hb, div_left_inj' hne'] at htie
    have hunits : n.units ≠ roundUnits a b :=
      fun heq => hne (Magnitude.eq_of_units_eq (heq.trans hm.symm))
    rw [Magnitude.two_dvd_significand_iff, hm]
    refine two_mul_spacing_dvd_of_tie hb n.representable.1 hunits ?_
    rw [hm] at htie
    rcases abs_eq_abs.1 htie with hsame | hopposite
    · have heq : (n.units * b : ℚ) = roundUnits a b * b := by linarith
      exact absurd (Nat.eq_of_mul_eq_mul_right hb (by exact_mod_cast heq)) hunits
    · have hsum : (2 * a : ℚ) = roundUnits a b * b + n.units * b := by linarith
      exact_mod_cast hsum

theorem overflowBound_eq : overflowBound = 18014398509481983 * 2 ^ 970 := by
  rw [overflowBound, show 1024 = 970 + 54 by omega, pow_add]
  generalize (2 : ℚ) ^ 970 = x
  norm_num
  ring

theorem overflowBound_mul_unitsPerOne : overflowBound * unitsPerOne = overflowUnits := by
  -- the powers of two are kept out of reach of evaluation
  obtain ⟨k, hk⟩ : ∃ k, k = 970 := ⟨970, rfl⟩
  obtain ⟨p, hp⟩ : ∃ p, p = 1074 := ⟨1074, rfl⟩
  rw [overflowBound_eq]
  unfold unitsPerOne overflowUnits
  rw [← hk, ← hp, show 2044 = k + p by omega, Nat.pow_eq, Nat.pow_eq, pow_add]
  push_cast
  rw [mul_assoc]

theorem lt_overflowBound_iff (hb : 0 < b) :
    (a / b / unitsPerOne : ℚ) < overflowBound ↔ a < overflowUnits * b := by
  have hb' : (0 : ℚ) < b := Nat.cast_pos.2 hb
  have hU : (0 : ℚ) < unitsPerOne := Nat.cast_pos.2 unitsPerOne_pos
  rw [div_div, div_lt_iff₀ (mul_pos hb' hU), mul_left_comm, overflowBound_mul_unitsPerOne]
  rw [mul_comm (b : ℚ)]
  exact_mod_cast Iff.rfl

/-- **`round` rounds correctly.** -/
theorem isRounding_round (negative : Bool) (hb : 0 < b) :
    IsRounding negative (a / b / unitsPerOne) (round negative a b) := by
  rw [round]
  split
  · next hlt =>
    exact .finite ((lt_overflowBound_iff hb).2 ((roundUnits_lt_unitLimit_iff hb).1 hlt))
      (isNearest_of_units_eq hb rfl)
  · next hge =>
    refine .infinite (le_of_not_gt fun hlt => hge ?_)
    exact (roundUnits_lt_unitLimit_iff hb).2 ((lt_overflowBound_iff hb).1 hlt)

/-! ### One correct rounding -/

/-- One spacing above a representable count the next one stands. -/
theorem spacing_dvd_add_spacing {n : ℕ} (h : spacing n ∣ n) :
    spacing (n + spacing n) ∣ n + spacing n := by
  obtain ⟨k, hk⟩ := h
  have hlt : n < 2 ^ (n.log2 - 52 + 53) :=
    Nat.lt_of_lt_of_le Nat.lt_log2_self (Nat.pow_le_pow_right (by decide) (by omega))
  have hdigits : k < 2 ^ 53 := by
    refine Nat.lt_of_mul_lt_mul_left (a := spacing n) ?_
    rwa [← hk, spacing, Nat.pow_eq, ← Nat.pow_add]
  have hnext : n + spacing n = (k + 1) * Nat.pow 2 (n.log2 - 52) := by
    rw [Nat.succ_mul, Nat.mul_comm, ← spacing, ← hk]
  rw [hnext]
  exact spacing_dvd_mul_two_pow hdigits _

theorem Magnitude.value_lt_value_iff {m n : Magnitude} :
    m.value < n.value ↔ m.units < n.units := by
  rw [value, value, div_lt_div_iff_of_pos_right (Nat.cast_pos.2 unitsPerOne_pos), Nat.cast_lt]

/-- Two even magnitudes have a third one between them. -/
theorem Magnitude.exists_between {m n : Magnitude} (hm : 2 ∣ m.significand)
    (hn : 2 ∣ n.significand) (h : m.units < n.units) :
    ∃ p : Magnitude, m.units < p.units ∧ p.units < n.units := by
  rw [two_dvd_significand_iff] at hm hn
  have hdvd : 2 * spacing m.units ∣ n.units - m.units :=
    Nat.dvd_sub (Nat.dvd_trans (Nat.mul_dvd_mul_left 2 (spacing_dvd_spacing h.le)) hn) hm
  have hle := Nat.le_of_dvd (Nat.sub_pos_of_lt h) hdvd
  have hspacing := spacing_pos m.units
  have hlimit := n.representable.2
  exact ⟨⟨m.units + spacing m.units, spacing_dvd_add_spacing m.representable.1, by omega⟩,
    by dsimp only; omega, by dsimp only; omega⟩

/-- There is one nearest magnitude. -/
theorem IsNearest.units_le {q : ℚ} {m n : Magnitude} (hm : IsNearest q m) (hn : IsNearest q n) :
    n.units ≤ m.units := by
  by_contra hlt
  have hlt : m.units < n.units := Nat.lt_of_not_le hlt
  have hne : m ≠ n := fun heq => absurd hlt (heq ▸ Nat.lt_irrefl _)
  have htie : |m.value - q| = |n.value - q| := le_antisymm (hm.le n) (hn.le m)
  obtain ⟨p, hmp, hpn⟩ := Magnitude.exists_between (hm.even n hne.symm htie.symm)
    (hn.even m hne htie) hlt
  have hmp := Magnitude.value_lt_value_iff.2 hmp
  have hpn := Magnitude.value_lt_value_iff.2 hpn
  -- the number is halfway between the two, so what stands between them is nearer
  have hmiddle : m.value + n.value = 2 * q := by
    rcases abs_eq_abs.1 htie with hsame | hopposite
    · linarith
    · linarith
  have hnear : |p.value - q| < |m.value - q| := by
    have hfar : q - m.value ≤ |m.value - q| := by
      rw [abs_sub_comm]
      exact le_abs_self _
    rw [abs_lt]
    constructor <;> linarith
  exact absurd (hm.le p) (not_le_of_gt hnear)

theorem IsNearest.unique {q : ℚ} {m n : Magnitude} (hm : IsNearest q m) (hn : IsNearest q n) :
    m = n :=
  Magnitude.eq_of_units_eq (Nat.le_antisymm (hn.units_le hm) (hm.units_le hn))

/-- **There is one correct rounding.** -/
theorem IsRounding.unique {negative : Bool} {q : ℚ} {x y : Binary64} (hx : IsRounding negative q x)
    (hy : IsRounding negative q y) : x = y := by
  cases hx with
  | finite hq hm =>
    cases hy with
    | finite _ hn => rw [hm.unique hn]
    | infinite hq' => exact absurd hq (not_lt_of_ge hq')
  | infinite hq =>
    cases hy with
    | finite hq' _ => exact absurd hq' (not_lt_of_ge hq)
    | infinite _ => rfl

/-- Half the least positive number. -/
def underflowBound : ℚ := 1 / (2 * unitsPerOne)

/-- Zero is the nearest to what is no more than half the least positive number. -/
theorem isNearest_zero {q : ℚ} (h0 : 0 ≤ q) (hq : q ≤ underflowBound) :
    IsNearest q ⟨0, isRepresentable_zero⟩ where
  le n := by
    have hU : (0 : ℚ) < unitsPerOne := Nat.cast_pos.2 unitsPerOne_pos
    have hzero : (⟨0, isRepresentable_zero⟩ : Magnitude).value = 0 := by
      rw [Magnitude.value, Nat.cast_zero, zero_div]
    rw [hzero, zero_sub, abs_neg, abs_of_nonneg h0]
    rcases Nat.eq_zero_or_pos n.units with hnil | hpos
    · rw [Magnitude.value, hnil, Nat.cast_zero, zero_div, zero_sub, abs_neg, abs_of_nonneg h0]
    · have hleast : 1 / (unitsPerOne : ℚ) ≤ n.value :=
        div_le_div_of_nonneg_right (by exact_mod_cast hpos) hU.le
      have hhalf : 2 * underflowBound = 1 / unitsPerOne := by
        rw [underflowBound]
        field_simp
      exact le_trans (by linarith) (le_abs_self _)
  even _ _ _ := Magnitude.two_dvd_significand_iff.2 (Nat.dvd_zero _)

theorem underflowBound_lt_overflowBound : underflowBound < overflowBound := by
  have hU : (1 : ℚ) ≤ unitsPerOne := Nat.one_le_cast.2 unitsPerOne_pos
  have hunder : underflowBound ≤ 1 := by
    rw [underflowBound, div_le_one (by linarith)]
    linarith
  have hover : (1 : ℚ) ≤ 2 ^ 970 := one_le_pow₀ one_le_two
  rw [overflowBound_eq]
  generalize (2 : ℚ) ^ 970 = x at hover
  linarith

/-- What is no more than half the least positive number is rounded to zero. -/
theorem IsRounding.eq_signedZero {negative : Bool} {q : ℚ} {x : Binary64} (h0 : 0 ≤ q)
    (hq : q ≤ underflowBound) (hx : IsRounding negative q x) : x = signedZero negative :=
  hx.unique (.finite (lt_of_le_of_lt hq underflowBound_lt_overflowBound) (isNearest_zero h0 hq))

end Binary64

end CssTransform
