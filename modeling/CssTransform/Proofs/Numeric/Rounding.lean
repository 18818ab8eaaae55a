import CssTransform.Numeric.Decimal
import Mathlib.Algebra.Order.Ring.Nat
import Mathlib.Tactic.Ring

/-!
# What rounding does to a quotient

`Binary64.roundUnits` rounds a quotient of natural numbers to a representable count. Here is what
every later argument takes from it: the result depends on the quotient alone, it is off by at most
half a spacing, it does not cross a representable count, and no representable count is nearer.

## Which choice is load-bearing

A representable count at or above the quotient is a multiple of the spacing *at the quotient*, and
one below it is so only in the same binade. So the lemmas from above divide by the spacing at once,
and those from below first move to the power of two at which the binade begins.

## Main results

* `Binary64.roundUnits_congr` — equal quotients have equal roundings
* `Binary64.roundUnits_error_above`, `Binary64.roundUnits_error_below` — half a spacing
* `Binary64.le_roundUnits`, `Binary64.roundUnits_le` — rounding does not cross a representable count
* `Binary64.roundUnits_nearest_below`, `Binary64.roundUnits_nearest_above` — none is nearer
* `Binary64.roundUnits_mono` — rounding keeps the order
-/

namespace CssTransform

namespace Binary64

/-! ### The nearest natural number -/

theorem nearestEven_mul_le {a b : ℕ} : 2 * (nearestEven a b * b) ≤ 2 * a + b := by
  have hdiv := Nat.div_add_mod' a b
  simp only [nearestEven]
  split
  · omega
  · next h =>
    split
    · rw [Nat.add_mul]
      omega
    · rcases Nat.mod_two_eq_zero_or_one (a / b) with hpar | hpar <;> rw [hpar, Nat.add_mul] <;>
        omega

theorem le_nearestEven_mul {a b : ℕ} (hb : 0 < b) : 2 * a ≤ 2 * (nearestEven a b * b) + b := by
  have hdiv := Nat.div_add_mod' a b
  have hmod := Nat.mod_lt a hb
  simp only [nearestEven]
  split
  · omega
  · next h =>
    split
    · rw [Nat.add_mul]
      omega
    · rcases Nat.mod_two_eq_zero_or_one (a / b) with hpar | hpar <;> rw [hpar, Nat.add_mul] <;>
        omega

theorem div_le_nearestEven (a b : ℕ) : a / b ≤ nearestEven a b := by
  simp only [nearestEven]
  split
  · exact Nat.le_refl _
  · split <;> omega

theorem le_nearestEven {a b q : ℕ} (hb : 0 < b) (h : q * b ≤ a) : q ≤ nearestEven a b :=
  Nat.le_trans ((Nat.le_div_iff_mul_le hb).2 h) (div_le_nearestEven a b)

theorem nearestEven_le_of_le_mul {a b q : ℕ} (hb : 0 < b) (h : a ≤ q * b) :
    nearestEven a b ≤ q := by
  have hdiv := Nat.div_add_mod' a b
  rcases Nat.lt_or_ge (a / b) q with hlt | hge
  · exact Nat.le_trans (nearestEven_le a b) hlt
  · have hmul := Nat.mul_le_mul_right b hge
    have hmod : a % b = 0 := by omega
    have hq : a / b = q := Nat.eq_of_mul_eq_mul_right hb (by omega)
    simp [nearestEven, hmod, hb, hq]

theorem nearestEven_mul_mul {c : ℕ} (hc : 0 < c) (a b : ℕ) :
    nearestEven (a * c) (b * c) = nearestEven a b := by
  simp only [nearestEven]
  rw [Nat.mul_mod_mul_right, Nat.mul_div_mul_right _ _ hc, ← Nat.mul_assoc]
  simp only [Nat.mul_lt_mul_right hc]

/-- A multiple below the quotient is no nearer than the nearest one. -/
theorem nearestEven_nearest_below {a b q : ℕ} (h : q * b ≤ a) :
    nearestEven a b * b + q * b ≤ 2 * a := by
  have hdiv := Nat.div_add_mod' a b
  rcases Nat.eq_zero_or_pos b with rfl | hb
  · simp
  have hq := Nat.mul_le_mul_right b ((Nat.le_div_iff_mul_le hb).2 h)
  simp only [nearestEven]
  split
  · omega
  · split
    · rw [Nat.add_mul]
      omega
    · rcases Nat.mod_two_eq_zero_or_one (a / b) with hpar | hpar <;> rw [hpar, Nat.add_mul] <;>
        omega

/-- A multiple above the quotient is no nearer than the nearest one. -/
theorem nearestEven_nearest_above {a b q : ℕ} (hb : 0 < b) (h : a ≤ q * b) :
    2 * a ≤ nearestEven a b * b + q * b := by
  rcases Nat.lt_or_ge (a / b) q with hlt | hge
  · have hq := Nat.mul_le_mul_right b hlt
    have hdiv := Nat.div_add_mod' a b
    have hmod := Nat.mod_lt a hb
    rw [Nat.succ_mul] at hq
    simp only [nearestEven]
    split
    · omega
    · split
      · rw [Nat.add_mul]
        omega
      · rcases Nat.mod_two_eq_zero_or_one (a / b) with hpar | hpar <;>
          rw [hpar, Nat.add_mul] <;> omega
  · have hle := Nat.mul_le_mul_right b (Nat.le_trans hge (div_le_nearestEven a b))
    omega

/-! ### Spacings -/

theorem log2_mono {m n : ℕ} (h : m ≤ n) : m.log2 ≤ n.log2 := by
  rcases Nat.eq_zero_or_pos m with rfl | hm
  · simp
  · exact (Nat.le_log2 (by omega)).2 (Nat.le_trans (Nat.log2_self_le (by omega)) h)

theorem spacing_dvd_spacing {m n : ℕ} (h : m ≤ n) : spacing m ∣ spacing n :=
  Nat.pow_dvd_pow 2 (Nat.sub_le_sub_right (log2_mono h) 52)

theorem spacing_le_two_pow {n k : ℕ} (h : n < 2 ^ (k + 53)) : spacing n ≤ 2 ^ k := by
  rcases Nat.eq_zero_or_pos n with rfl | hn
  · simpa [spacing] using Nat.one_le_two_pow
  · have hlog : n.log2 < k + 53 := (Nat.log2_lt (by omega)).2 h
    exact Nat.pow_le_pow_right (by decide) (by omega)

theorem two_pow_dvd_spacing {n k : ℕ} (h : 2 ^ (k + 52) ≤ n) : 2 ^ k ∣ spacing n := by
  have hpos : 0 < 2 ^ (k + 52) := Nat.two_pow_pos _
  have hlog : k + 52 ≤ n.log2 := (Nat.le_log2 (by omega)).2 h
  exact Nat.pow_dvd_pow 2 (by omega)

/-- Different representable counts lie apart by the spacing at which they begin. -/
theorem add_two_pow_le {m n k : ℕ} (hm : spacing m ∣ m) (hn : spacing n ∣ n)
    (hk : 2 ^ (k + 52) ≤ m) (h : m < n) : m + 2 ^ k ≤ n := by
  have hdvd : 2 ^ k ∣ n - m :=
    Nat.dvd_sub (Nat.dvd_trans (two_pow_dvd_spacing (Nat.le_trans hk (Nat.le_of_lt h))) hn)
      (Nat.dvd_trans (two_pow_dvd_spacing hk) hm)
  have hle := Nat.le_of_dvd (by omega) hdvd
  omega

theorem spacing_dvd_two_pow (k : ℕ) : spacing (2 ^ k) ∣ 2 ^ k := by
  simpa using spacing_dvd_mul_two_pow (m := 1) (by decide) k

theorem Magnitude.eq_of_units_eq {m n : Magnitude} (h : m.units = n.units) : m = n := by
  cases m
  cases n
  simpa using h

theorem unitsPerOne_pos : 0 < unitsPerOne := by
  unfold unitsPerOne
  generalize 1074 = p
  exact Nat.two_pow_pos p

/-! ### Rounding a quotient -/

variable {a b : ℕ}

theorem roundUnits_mul_mul {c : ℕ} (hc : 0 < c) (a b : ℕ) :
    roundUnits (a * c) (b * c) = roundUnits a b := by
  simp only [roundUnits]
  rw [Nat.mul_div_mul_right _ _ hc, Nat.mul_right_comm b c, nearestEven_mul_mul hc]

/-- Equal quotients have equal roundings. -/
theorem roundUnits_congr {a' b' : ℕ} (hb : 0 < b) (hb' : 0 < b') (h : a * b' = a' * b) :
    roundUnits a b = roundUnits a' b' := by
  rw [← roundUnits_mul_mul hb' a b, ← roundUnits_mul_mul hb a' b', h, Nat.mul_comm b b']

theorem roundUnits_mul_eq (a b : ℕ) :
    roundUnits a b * b = nearestEven a (b * spacing (a / b)) * (b * spacing (a / b)) := by
  rw [roundUnits, Nat.mul_assoc, Nat.mul_comm (spacing _) b]

theorem roundUnits_error_above (a b : ℕ) :
    2 * (roundUnits a b * b) ≤ 2 * a + b * spacing (a / b) := by
  rw [roundUnits_mul_eq]
  exact nearestEven_mul_le

theorem roundUnits_error_below (hb : 0 < b) :
    2 * a ≤ 2 * (roundUnits a b * b) + b * spacing (a / b) := by
  rw [roundUnits_mul_eq]
  exact le_nearestEven_mul (Nat.mul_pos hb (spacing_pos _))

/-- At or above the quotient a representable count is a multiple of the spacing there. -/
theorem spacing_div_dvd {z : ℕ} (hz : spacing z ∣ z) (h : a ≤ z * b) :
    spacing (a / b) ∣ z :=
  Nat.dvd_trans (spacing_dvd_spacing (Nat.div_le_of_le_mul (by rwa [Nat.mul_comm]))) hz

/-- Below the quotient a representable count is a multiple of the spacing there, or it is below the
power of two at which the binade of the quotient begins. -/
theorem spacing_div_dvd_or_lt {z : ℕ} (hz : spacing z ∣ z) :
    spacing (a / b) ∣ z ∨ z < 2 ^ (a / b).log2 := by
  rcases Nat.lt_or_ge z (2 ^ (a / b).log2) with hlt | hge
  · exact Or.inr hlt
  · have hpos := Nat.two_pow_pos (a / b).log2
    have hlog : (a / b).log2 ≤ z.log2 := (Nat.le_log2 (by omega)).2 hge
    exact Or.inl (Nat.dvd_trans (Nat.pow_dvd_pow 2 (by omega)) hz)

/-- A representable count below the quotient is below its rounding. -/
theorem le_roundUnits {z : ℕ} (hb : 0 < b) (hz : spacing z ∣ z) (h : z * b ≤ a) :
    z ≤ roundUnits a b := by
  have hquot : z ≤ a / b := (Nat.le_div_iff_mul_le hb).2 h
  rcases spacing_div_dvd_or_lt (a := a) (b := b) hz with ⟨k, hk⟩ | hlt
  · have hle : k ≤ nearestEven a (b * spacing (a / b)) := by
      refine le_nearestEven (Nat.mul_pos hb (spacing_pos _)) (Nat.le_trans (Nat.le_of_eq ?_) h)
      calc k * (b * spacing (a / b)) = spacing (a / b) * k * b := by ring
        _ = z * b := by rw [← hk]
    rw [hk, roundUnits, Nat.mul_comm]
    exact Nat.mul_le_mul_right _ hle
  · rcases Nat.eq_zero_or_pos (a / b) with hzero | hpos
    · omega
    · exact Nat.le_trans (Nat.le_of_lt hlt)
        (Decimal.two_pow_log2_le_roundUnits (Nat.ne_of_gt hpos))

/-- A representable count above the quotient is above its rounding. -/
theorem roundUnits_le {z : ℕ} (hb : 0 < b) (hz : spacing z ∣ z) (h : a ≤ z * b) :
    roundUnits a b ≤ z := by
  obtain ⟨k, hk⟩ := spacing_div_dvd hz h
  have hle : nearestEven a (b * spacing (a / b)) ≤ k := by
    refine nearestEven_le_of_le_mul (Nat.mul_pos hb (spacing_pos _))
      (Nat.le_trans h (Nat.le_of_eq ?_))
    calc z * b = spacing (a / b) * k * b := by rw [← hk]
      _ = k * (b * spacing (a / b)) := by ring
  calc roundUnits a b ≤ k * spacing (a / b) := Nat.mul_le_mul_right _ hle
    _ = z := by rw [Nat.mul_comm, ← hk]

/-- No representable count below the quotient is nearer than its rounding. -/
theorem roundUnits_nearest_below {z : ℕ} (hb : 0 < b) (hz : spacing z ∣ z) (h : z * b ≤ a) :
    roundUnits a b * b + z * b ≤ 2 * a := by
  -- a multiple of the spacing at the quotient, which `z` itself may fail to be
  suffices hmul : ∀ w, spacing (a / b) ∣ w → w * b ≤ a → roundUnits a b * b + w * b ≤ 2 * a by
    rcases spacing_div_dvd_or_lt (a := a) (b := b) hz with hdvd | hlt
    · exact hmul z hdvd h
    · rcases Nat.eq_zero_or_pos (a / b) with hzero | hpos
      · have hquot : z ≤ a / b := (Nat.le_div_iff_mul_le hb).2 h
        have hz0 : z = 0 := by omega
        exact hmul z (hz0 ▸ Nat.dvd_zero _) h
      · have hfloor : 2 ^ (a / b).log2 * b ≤ a :=
          (Nat.le_div_iff_mul_le hb).1 (Nat.log2_self_le (Nat.ne_of_gt hpos))
        have hbinade := hmul _ (Nat.pow_dvd_pow 2 (Nat.sub_le _ _)) hfloor
        have := Nat.mul_le_mul_right b (Nat.le_of_lt hlt)
        omega
  rintro w ⟨k, rfl⟩ hw
  have hcomm : spacing (a / b) * k * b = k * (b * spacing (a / b)) := by ring
  rw [roundUnits_mul_eq, hcomm]
  exact nearestEven_nearest_below (hcomm ▸ hw)

/-- No representable count above the quotient is nearer than its rounding. -/
theorem roundUnits_nearest_above {z : ℕ} (hb : 0 < b) (hz : spacing z ∣ z) (h : a ≤ z * b) :
    2 * a ≤ roundUnits a b * b + z * b := by
  obtain ⟨k, hk⟩ := spacing_div_dvd hz h
  have hcomm : z * b = k * (b * spacing (a / b)) := by
    calc z * b = spacing (a / b) * k * b := by rw [← hk]
      _ = k * (b * spacing (a / b)) := by ring
  rw [roundUnits_mul_eq, hcomm]
  exact nearestEven_nearest_above (Nat.mul_pos hb (spacing_pos _)) (hcomm ▸ h)

/-- A greater quotient has no lesser rounding. -/
theorem roundUnits_mono {a' : ℕ} (hb : 0 < b) (h : a ≤ a') :
    roundUnits a b ≤ roundUnits a' b := by
  by_contra hgt
  have hrep := spacing_dvd_roundUnits a b
  have hrep' := spacing_dvd_roundUnits a' b
  rcases Nat.le_total (roundUnits a b * b) a' with hle | hge
  · exact hgt (le_roundUnits hb hrep hle)
  · rcases Nat.le_total a (roundUnits a' b * b) with hle' | hge'
    · exact hgt (roundUnits_le hb hrep' hle')
    · -- both roundings lie on both sides of both quotients, so the quotients are the same
      have habove := roundUnits_nearest_above hb hrep hge
      have hbelow := roundUnits_nearest_below hb hrep' hge'
      obtain rfl : a = a' := by omega
      exact hgt (Nat.le_refl _)

/-- A quotient nearer to a representable count than half the least distance to another one is
rounded to that count. -/
theorem roundUnits_eq_of_near {y k : ℕ} (hb : 0 < b) (hy : spacing y ∣ y)
    (hlow : 2 ^ (k + 52) ≤ y) (hfloor : 2 ^ (k + 52) * b ≤ a)
    (habove : 2 * a < 2 * (y * b) + 2 ^ k * b) (hbelow : 2 * (y * b) < 2 * a + 2 ^ k * b) :
    roundUnits a b = y := by
  have hrep := spacing_dvd_roundUnits a b
  rcases Nat.lt_trichotomy (roundUnits a b) y with hlt | heq | hgt
  · have hbinade := le_roundUnits hb (spacing_dvd_two_pow _) hfloor
    have hgap := Nat.mul_le_mul_right b (add_two_pow_le hrep hy hbinade hlt)
    rw [Nat.add_mul] at hgap
    rcases Nat.le_total a (y * b) with hle | hge
    · have := roundUnits_nearest_above hb hy hle
      omega
    · have := le_roundUnits hb hy hge
      omega
  · exact heq
  · have hgap := Nat.mul_le_mul_right b (add_two_pow_le hy hrep hlow hgt)
    rw [Nat.add_mul] at hgap
    rcases Nat.le_total a (y * b) with hle | hge
    · have := roundUnits_le hb hy hle
      omega
    · have := roundUnits_nearest_below hb hy hge
      omega

end Binary64

end CssTransform
