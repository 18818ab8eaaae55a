/-!
# Binary64 numbers as whole numbers of units

Every finite binary64 number is a whole multiple of the least positive one, `2 ^ (-1074)`. So a
finite number is kept here as a sign and a natural number of such *units*; what makes the number
representable is a divisibility condition on the count, and arithmetic is arithmetic on counts
followed by one rounding.

## Which choice is load-bearing

Keeping the count, and not a significand beside an exponent, means that two finite numbers of one
sign are equal exactly when their counts are: there is no canonical form to maintain and no
normalisation step that a proof has to look through. The price is large counts (`1` is `2 ^ 1074`
units), which natural numbers carry without complaint.

There is a single not-a-number value. Its sign and payload never reach any result of this
library.

## Main definitions

* `Binary64.spacing` — the distance between neighbouring representable counts
* `Binary64.IsRepresentable` — the counts that are magnitudes of finite numbers
* `Binary64.roundUnits` — a quotient of counts to the nearest representable count, ties to even
* `Binary64` — the numbers, with `round` as the only way in for a computed magnitude

## Main results

* `Binary64.spacing_dvd_roundUnits` — rounding lands on a representable count
* `Binary64.roundUnits_of_dvd` — a representable count is its own rounding
-/

namespace CssTransform

namespace Binary64

/-! ### Counts of units -/

/-- The least count above every finite magnitude: `2 ^ 1024`, in units of `2 ^ (-1074)`. -/
def unitLimit : Nat := Nat.pow 2 2098

/-- The number one, in units. -/
def unitsPerOne : Nat := Nat.pow 2 1074

theorem two_pow_le_unitLimit {k : Nat} (h : k ≤ 2098) : Nat.pow 2 k ≤ unitLimit := by
  unfold unitLimit
  generalize 2098 = m at h ⊢
  exact Nat.pow_le_pow_right Nat.two_pos h

theorem unitLimit_le_two_pow {k : Nat} (h : 2098 ≤ k) : unitLimit ≤ Nat.pow 2 k := by
  unfold unitLimit
  generalize 2098 = m at h ⊢
  exact Nat.pow_le_pow_right Nat.two_pos h

theorem unitLimit_pos : 0 < unitLimit :=
  Nat.lt_of_lt_of_le (Nat.two_pow_pos 0) (two_pow_le_unitLimit (Nat.zero_le _))

/-- The distance between neighbouring representable counts around `n`: one unit as long as 53
binary digits hold the count, and twice as much for each digit beyond. -/
def spacing (n : Nat) : Nat := Nat.pow 2 (n.log2 - 52)

/-- A count is the magnitude of a finite number when at most 53 binary digits of it, from the
leading one on, are used, and it lies below the limit. -/
def IsRepresentable (n : Nat) : Prop := spacing n ∣ n ∧ n < unitLimit

instance (n : Nat) : Decidable (IsRepresentable n) := inferInstanceAs (Decidable (_ ∧ _))

theorem spacing_pos (n : Nat) : 0 < spacing n := Nat.two_pow_pos _

/-- Counts of up to fifty-three digits, and the 53rd power of two, are representable at any
scale. -/
theorem spacing_dvd_mul_two_pow {m : Nat} (hm : m ≤ 9007199254740992) (k : Nat) :
    spacing (m * Nat.pow 2 k) ∣ m * Nat.pow 2 k := by
  simp only [spacing, Nat.pow_eq]
  rcases Nat.eq_zero_or_pos m with rfl | hpos
  · simp
  · have hne : m * 2 ^ k ≠ 0 := Nat.mul_ne_zero (by omega) (Nat.ne_of_gt (Nat.two_pow_pos k))
    rcases Nat.lt_or_ge m (2 ^ 53) with hlt | hge
    · have hlog : (m * 2 ^ k).log2 < 53 + k := by
        rw [Nat.log2_lt hne, Nat.pow_add]
        exact Nat.mul_lt_mul_of_pos_right hlt (Nat.two_pow_pos k)
      exact Nat.dvd_trans (Nat.pow_dvd_pow 2 (by omega)) (Nat.dvd_mul_left _ _)
    · have hm53 : m = 2 ^ 53 := by omega
      subst hm53
      rw [← Nat.pow_add, Nat.log2_two_pow]
      exact Nat.pow_dvd_pow 2 (by omega)

/-! ### Rounding -/

/-- The quotient `a / b` to the nearest natural number, an exact half to the even neighbour. -/
def nearestEven (a b : Nat) : Nat :=
  if 2 * (a % b) < b then a / b
  else if b < 2 * (a % b) then a / b + 1
  else a / b + a / b % 2

theorem nearestEven_le (a b : Nat) : nearestEven a b ≤ a / b + 1 := by
  unfold nearestEven
  split
  · omega
  · split <;> omega

theorem nearestEven_mul_left {b : Nat} (hb : 0 < b) (q : Nat) : nearestEven (q * b) b = q := by
  simp [nearestEven, Nat.mul_mod_left, hb, Nat.mul_div_cancel _ hb]

/-- The representable count nearest to the quotient `a / b`, a tie to the count whose last digit
is even. The upper limit is left out of account here: `round` looks at it. -/
def roundUnits (a b : Nat) : Nat :=
  nearestEven a (b * spacing (a / b)) * spacing (a / b)

theorem spacing_dvd_roundUnits (a b : Nat) : spacing (roundUnits a b) ∣ roundUnits a b := by
  unfold roundUnits
  refine spacing_dvd_mul_two_pow (Nat.le_trans (nearestEven_le _ _) ?_) _
  rw [← Nat.div_div_eq_div_mul]
  have hlt : a / b / spacing (a / b) < 2 ^ 53 := by
    rw [Nat.div_lt_iff_lt_mul (spacing_pos _), spacing, Nat.pow_eq, ← Nat.pow_add]
    exact Nat.lt_of_lt_of_le Nat.lt_log2_self (Nat.pow_le_pow_right (by decide) (by omega))
  omega

theorem roundUnits_of_dvd {n b : Nat} (hb : 0 < b) (h : spacing n ∣ n) :
    roundUnits (n * b) b = n := by
  obtain ⟨q, hq⟩ := h
  have hpos := Nat.mul_pos hb (spacing_pos n)
  have key : n * b = q * (b * spacing n) := by
    calc n * b = spacing n * q * b := by rw [← hq]
      _ = q * (b * spacing n) := by
        rw [Nat.mul_comm (spacing n) q, Nat.mul_assoc, Nat.mul_comm (spacing n) b]
  have hdiv : n * b / b = n := Nat.mul_div_cancel _ hb
  unfold roundUnits
  rw [hdiv, key, nearestEven_mul_left hpos, Nat.mul_comm]
  exact hq.symm

/-- The magnitude of a finite number: a representable count of units. -/
structure Magnitude where
  units : Nat
  representable : IsRepresentable units
deriving DecidableEq

end Binary64

/-- A binary64 number. -/
inductive Binary64 where
  | nan
  | infinite (negative : Bool)
  | finite (negative : Bool) (magnitude : Binary64.Magnitude)
deriving DecidableEq

namespace Binary64

/-- The number nearest to `a / b` units, with the sign as given; infinite from the limit on. -/
def round (negative : Bool) (a b : Nat) : Binary64 :=
  if h : roundUnits a b < unitLimit then
    .finite negative ⟨roundUnits a b, spacing_dvd_roundUnits a b, h⟩
  else
    .infinite negative

theorem isRepresentable_zero : IsRepresentable 0 := by decide +kernel

theorem isRepresentable_one : IsRepresentable unitsPerOne := by decide +kernel

/-- The zero of a sign. -/
def signedZero (negative : Bool) : Binary64 := .finite negative ⟨0, isRepresentable_zero⟩

instance : Zero Binary64 := ⟨signedZero false⟩

instance : One Binary64 := ⟨.finite false ⟨unitsPerOne, isRepresentable_one⟩⟩

instance : Inhabited Binary64 := ⟨0⟩

/-- Neither infinite nor not-a-number. -/
def isFinite : Binary64 → Bool
  | .finite _ _ => true
  | _ => false

@[simp] theorem isFinite_nan : isFinite .nan = false := rfl
@[simp] theorem isFinite_infinite (s : Bool) : isFinite (.infinite s) = false := rfl
@[simp] theorem isFinite_finite (s : Bool) (m : Magnitude) : isFinite (.finite s m) = true := rfl

/-- Zero, of either sign. -/
def isZero : Binary64 → Bool
  | .finite _ m => m.units == 0
  | _ => false

/-! ### Arithmetic

Each operation computes exactly on counts and rounds once. Where a finite operation is exact, the
sign of a zero result is what needs care: a sum that cancels is `+0`, and only two negative zeros
add up to `-0`. -/

/-- The signed count of units of a finite number. -/
def signedUnits (negative : Bool) (m : Magnitude) : Int :=
  if negative then -(m.units : Int) else m.units

/-- The opposite number. -/
def neg : Binary64 → Binary64
  | .nan => .nan
  | .infinite s => .infinite (!s)
  | .finite s m => .finite (!s) m

instance : Neg Binary64 := ⟨neg⟩

/-- The sum. -/
def add : Binary64 → Binary64 → Binary64
  | .nan, _ => .nan
  | _, .nan => .nan
  | .infinite s, .infinite t => if s = t then .infinite s else .nan
  | .infinite s, .finite _ _ => .infinite s
  | .finite _ _, .infinite t => .infinite t
  | .finite s m, .finite t n =>
    let total := signedUnits s m + signedUnits t n
    if total = 0 then signedZero (s && t) else round (total < 0) total.natAbs 1

instance : Add Binary64 := ⟨add⟩

/-- The product. -/
def mul : Binary64 → Binary64 → Binary64
  | .nan, _ => .nan
  | _, .nan => .nan
  | .infinite s, .infinite t => .infinite (s ^^ t)
  | .infinite s, .finite t n => if n.units = 0 then .nan else .infinite (s ^^ t)
  | .finite s m, .infinite t => if m.units = 0 then .nan else .infinite (s ^^ t)
  | .finite s m, .finite t n => round (s ^^ t) (m.units * n.units) unitsPerOne

instance : Mul Binary64 := ⟨mul⟩

/-- The quotient. -/
def div : Binary64 → Binary64 → Binary64
  | .nan, _ => .nan
  | _, .nan => .nan
  | .infinite _, .infinite _ => .nan
  | .infinite s, .finite t _ => .infinite (s ^^ t)
  | .finite s _, .infinite t => signedZero (s ^^ t)
  | .finite s m, .finite t n =>
    if n.units = 0 then
      if m.units = 0 then .nan else .infinite (s ^^ t)
    else
      round (s ^^ t) (m.units * unitsPerOne) n.units

instance : Div Binary64 := ⟨div⟩

/-- Whether the magnitude of the first number is below that of the second. Nothing is below or
above not-a-number. -/
def absLt : Binary64 → Binary64 → Bool
  | .nan, _ => false
  | _, .nan => false
  | .infinite _, _ => false
  | .finite _ _, .infinite _ => true
  | .finite _ m, .finite _ n => m.units < n.units

/-! ### Whole numbers -/

/-- The number nearest to a natural number, with a sign. -/
def ofNat (negative : Bool) (n : Nat) : Binary64 := round negative (n * unitsPerOne) 1

/-- The nearest whole number, a half away from zero. The sign stays, also that of a zero. -/
def roundHalfAway : Binary64 → Binary64
  | .nan => .nan
  | .infinite s => .infinite s
  | .finite s m => ofNat s ((2 * m.units + unitsPerOne) / (2 * unitsPerOne))

end Binary64

end CssTransform
