import CssTransform.Proofs.Numeric.SixPlaces

/-!
# The number that is written for an entry

The text of an entry is the plain text of one number, the entry rounded to six places, or of zero
where the entry is negligible or rounds to zero. Writing that number again gives the same text,
except for the numbers that a second rounding moves.

## Main definitions

* `Binary64.written` — the number that is written for an entry
* `Binary64.IsUnsteady` — the numbers that are written differently once written

## Main results

* `Binary64.entryText_eq` — the text of an entry is the plain text of that number
* `Binary64.written_written_eq_iff` — exactly the unsteady numbers change when written again
-/

namespace CssTransform

namespace Binary64

-- the two counts are never to be written out
attribute [local irreducible] unitsPerOne unitLimit

/-! ### Arithmetic on finite numbers -/

theorem finite_mul_finite (s t : Bool) (m n : Magnitude) :
    (finite s m : Binary64) * finite t n = round (s ^^ t) (m.units * n.units) unitsPerOne := by
  show mul (finite s m) (finite t n) = _
  rw [mul]

theorem finite_div_finite (s t : Bool) {m n : Magnitude} (hn : n.units ≠ 0) :
    (finite s m : Binary64) / finite t n = round (s ^^ t) (m.units * unitsPerOne) n.units := by
  show div (finite s m) (finite t n) = _
  rw [div, if_neg hn]

theorem finite_absLt_finite (s t : Bool) (m n : Magnitude) :
    (finite s m).absLt (finite t n) = decide (m.units < n.units) := rfl

theorem round_eq_finite {a b : ℕ} {m : Magnitude} (negative : Bool) (h : roundUnits a b = m.units) :
    round negative a b = .finite negative m := by
  obtain ⟨units, hrep⟩ := m
  subst h
  rw [round, dif_pos hrep.2]

/-! ### Whole numbers -/

theorem two_pow_mul_unitsPerOne_le_unitLimit {i : ℕ} (hi : i ≤ 1024) :
    2 ^ i * unitsPerOne ≤ unitLimit := by
  rw [two_pow_mul_unitsPerOne]
  exact two_pow_le_unitLimit (by omega)

theorem isRepresentable_whole {n : ℕ} (hn : n ≤ 2 ^ 53) : IsRepresentable (n * unitsPerOne) := by
  constructor
  · unfold unitsPerOne
    generalize 1074 = p
    exact spacing_dvd_mul_two_pow hn p
  · have hlimit := two_pow_mul_unitsPerOne_le_unitLimit (i := 54) (by decide)
    have hpos := unitsPerOne_pos
    have hmul := Nat.mul_le_mul_right unitsPerOne hn
    omega

/-- A whole number of up to fifty-three binary digits. -/
def wholeMagnitude (n : ℕ) (hn : n ≤ 2 ^ 53) : Magnitude :=
  ⟨n * unitsPerOne, isRepresentable_whole hn⟩

@[simp] theorem units_wholeMagnitude (n : ℕ) (hn : n ≤ 2 ^ 53) :
    (wholeMagnitude n hn).units = n * unitsPerOne := rfl

theorem ofNat_eq {n : ℕ} (hn : n ≤ 2 ^ 53) (negative : Bool) :
    ofNat negative n = .finite negative (wholeMagnitude n hn) := by
  refine round_eq_finite negative ?_
  have hround := roundUnits_of_dvd Nat.one_pos (isRepresentable_whole hn).1
  rwa [Nat.mul_one] at hround

theorem million_eq : million = .finite false (wholeMagnitude 1000000 (by decide)) := ofNat_eq _ _

theorem allWhole_eq : allWhole = .finite false (wholeMagnitude (2 ^ 53) (Nat.le_refl _)) :=
  ofNat_eq (Nat.le_refl _) false

/-! ### Rounding to six places, on counts -/

theorem mul_million (negative : Bool) (m : Magnitude) :
    (finite negative m : Binary64) * million = round negative (m.units * 1000000 * unitsPerOne)
      unitsPerOne := by
  rw [million_eq, finite_mul_finite, Bool.xor_false, units_wholeMagnitude, Nat.mul_assoc]

theorem roundUnits_mul_unitsPerOne (n : ℕ) :
    roundUnits (n * unitsPerOne) unitsPerOne = roundUnits n 1 := by
  have hscale := roundUnits_mul_mul unitsPerOne_pos n 1
  rwa [Nat.one_mul] at hscale

theorem round_absLt_allWhole (negative : Bool) (a b : ℕ) :
    (round negative a b).absLt allWhole = decide (roundUnits a b < 2 ^ 53 * unitsPerOne) := by
  rw [allWhole_eq, round]
  split
  · rw [finite_absLt_finite, units_wholeMagnitude]
  · next hlimit =>
    have hbound := two_pow_mul_unitsPerOne_le_unitLimit (i := 53) (by decide)
    exact (decide_eq_false (by omega)).symm

theorem whole_le {scaled : ℕ} (h : scaled < 2 ^ 53 * unitsPerOne) :
    (2 * scaled + unitsPerOne) / (2 * unitsPerOne) ≤ 2 ^ 53 := by
  have hpos := unitsPerOne_pos
  rw [Nat.div_le_iff_le_mul_add_pred (by omega)]
  omega

theorem roundUnits_million_le {k : ℕ} (hk : k ≤ 2 ^ 53) :
    roundUnits (k * unitsPerOne) 1000000 < unitLimit := by
  have hround : roundUnits (k * unitsPerOne) 1000000 ≤ 2 ^ 53 * unitsPerOne := by
    refine roundUnits_le (by decide) (spacing_dvd_two_pow_mul_unitsPerOne 53) ?_
    exact Nat.le_trans (Nat.mul_le_mul_right _ hk) (Nat.le_mul_of_pos_right _ (by decide))
  have hlimit := two_pow_mul_unitsPerOne_le_unitLimit (i := 54) (by decide)
  have hpos := unitsPerOne_pos
  omega

theorem ofNat_div_million {k : ℕ} (hk : k ≤ 2 ^ 53) (negative : Bool) :
    ∃ m, ofNat negative k / million = .finite negative m ∧
      m.units = roundUnits (k * unitsPerOne) 1000000 := by
  refine ⟨⟨_, spacing_dvd_roundUnits _ _, roundUnits_million_le hk⟩, ?_, rfl⟩
  have hne : 1000000 * unitsPerOne ≠ 0 := by
    have := unitsPerOne_pos
    omega
  rw [ofNat_eq hk, million_eq, finite_div_finite _ _ hne, Bool.xor_false, units_wholeMagnitude,
    units_wholeMagnitude]
  exact round_eq_finite negative (roundUnits_mul_mul unitsPerOne_pos _ _)

theorem toSixPlaces_finite (negative : Bool) (m : Magnitude) :
    ∃ m', toSixPlaces (.finite negative m) = .finite negative m' ∧
      m'.units = sixPlaces m.units := by
  unfold toSixPlaces sixPlaces
  dsimp only
  rw [mul_million, round_absLt_allWhole, roundUnits_mul_unitsPerOne]
  by_cases hlt : roundUnits (m.units * 1000000) 1 < 2 ^ 53 * unitsPerOne
  · rw [if_pos hlt, if_pos (decide_eq_true hlt)]
    have hlimit := two_pow_mul_unitsPerOne_le_unitLimit (i := 53) (by decide)
    have hround : round negative (m.units * 1000000 * unitsPerOne) unitsPerOne =
        .finite negative ⟨_, spacing_dvd_roundUnits (m.units * 1000000) 1,
          Nat.lt_of_lt_of_le hlt hlimit⟩ :=
      round_eq_finite negative (roundUnits_mul_unitsPerOne _)
    rw [hround]
    exact ofNat_div_million (whole_le hlt) negative
  · rw [if_neg hlt, if_neg (by simpa using hlt)]
    exact ⟨m, rfl, rfl⟩

/-! ### Negligible numbers -/

theorem negligible_eq :
    ∃ m, negligible = .finite false m ∧ 2 ^ 33 * m.units ≤ unitsPerOne := by
  obtain ⟨g, hg, hunits⟩ := exists_unitsPerOne_eq_mul (k := 33) (by decide)
  have hround : roundUnits unitsPerOne 10000000000 ≤ 2 ^ g := by
    refine roundUnits_le (by decide) (spacing_dvd_two_pow g) ?_
    rw [hunits, Nat.mul_comm]
    exact Nat.mul_le_mul_left _ (by decide)
  have hlimit : roundUnits unitsPerOne 10000000000 < unitLimit := by
    have hbound := two_pow_mul_unitsPerOne_le_unitLimit (i := 1) (by decide)
    have hpos := Nat.two_pow_pos g
    omega
  refine ⟨⟨_, spacing_dvd_roundUnits _ _, hlimit⟩, ?_, ?_⟩
  · rw [negligible, Decimal.toBinary64_eq_round]
    refine round_eq_finite false ?_
    rw [Decimal.unitsNumerator, Decimal.unitsDenominator]
    simp
  · calc 2 ^ 33 * roundUnits unitsPerOne 10000000000 ≤ 2 ^ 33 * 2 ^ g :=
        Nat.mul_le_mul_left _ hround
      _ = unitsPerOne := hunits.symm

theorem absLt_negligible_eq_false {m : Magnitude} (negative : Bool)
    (h : unitsPerOne ≤ 2 ^ 20 * m.units) : (finite negative m).absLt negligible = false := by
  obtain ⟨n, hn, hsmall⟩ := negligible_eq
  have hpos := unitsPerOne_pos
  rw [hn, finite_absLt_finite]
  exact decide_eq_false (by omega)

/-- A millionth and more is not negligible. -/
theorem le_roundUnits_million {k : ℕ} (hk : k ≠ 0) :
    unitsPerOne ≤ 2 ^ 20 * roundUnits (k * unitsPerOne) 1000000 := by
  obtain ⟨g, hg, hunits⟩ := exists_unitsPerOne_eq_mul (k := 20) (by decide)
  have hround : 2 ^ g ≤ roundUnits (k * unitsPerOne) 1000000 := by
    refine le_roundUnits (by decide) (spacing_dvd_two_pow g) ?_
    calc 2 ^ g * 1000000 ≤ 2 ^ g * 2 ^ 20 := Nat.mul_le_mul_left _ (by decide)
      _ = unitsPerOne := by rw [hunits, Nat.mul_comm]
      _ ≤ k * unitsPerOne := Nat.le_mul_of_pos_left _ (Nat.pos_of_ne_zero hk)
  calc unitsPerOne = 2 ^ 20 * 2 ^ g := hunits
    _ ≤ 2 ^ 20 * roundUnits (k * unitsPerOne) 1000000 := Nat.mul_le_mul_left _ hround

theorem sixPlaces_cases (n : ℕ) :
    sixPlaces n = n ∨ sixPlaces n = 0 ∨ unitsPerOne ≤ 2 ^ 20 * sixPlaces n := by
  unfold sixPlaces
  dsimp only
  split
  · rcases Nat.eq_zero_or_pos
      ((2 * roundUnits (n * 1000000) 1 + unitsPerOne) / (2 * unitsPerOne)) with hzero | hpos
    · rw [hzero, Nat.zero_mul]
      exact Or.inr (Or.inl (Decimal.roundUnits_eq_zero (by decide)))
    · exact Or.inr (Or.inr (le_roundUnits_million (Nat.ne_of_gt hpos)))
  · exact Or.inl rfl

/-! ### The number that is written -/

/-- The number whose plain text is the text of an entry. -/
def written (x : Binary64) : Binary64 :=
  if x.absLt negligible ∨ x.toSixPlaces.isZero then 0 else x.toSixPlaces

/-- The text of an entry is the plain text of one number. -/
theorem entryText_eq (x : Binary64) : x.entryText = x.written.plainText := by
  rw [entryText, written]
  split
  · rfl
  · rfl

theorem sixPlaces_zero : sixPlaces 0 = 0 := by
  have hround : roundUnits (0 * 1000000) 1 = 0 := Decimal.roundUnits_eq_zero (by decide)
  have hpos := unitsPerOne_pos
  have hwhole : (2 * 0 + unitsPerOne) / (2 * unitsPerOne) = 0 := Nat.div_eq_of_lt (by omega)
  unfold sixPlaces
  dsimp only
  rw [hround, hwhole, if_pos (by omega), Nat.zero_mul]
  exact Decimal.roundUnits_eq_zero (by decide)

theorem isZero_finite (negative : Bool) (m : Magnitude) :
    (finite negative m).isZero = true ↔ m.units = 0 := beq_iff_eq

theorem written_zero : written 0 = 0 := by
  obtain ⟨m, hm, hunits⟩ := toSixPlaces_finite false ⟨0, isRepresentable_zero⟩
  have hzero : (toSixPlaces 0).isZero = true := by
    show (toSixPlaces (finite false ⟨0, isRepresentable_zero⟩)).isZero = true
    rw [hm, isZero_finite, hunits, sixPlaces_zero]
  rw [written, if_pos (Or.inr hzero)]

/-- What is written for a finite number: zero, or the number rounded to six places, and then it is
neither zero nor negligible. -/
theorem written_finite (negative : Bool) (m : Magnitude) :
    written (.finite negative m) = 0 ∨ ∃ m', written (.finite negative m) = .finite negative m' ∧
      m'.units = sixPlaces m.units ∧ m'.units ≠ 0 ∧
      (finite negative m').absLt negligible = false := by
  obtain ⟨m', hm', hunits⟩ := toSixPlaces_finite negative m
  rw [written]
  split
  · exact Or.inl rfl
  · next hwritten =>
    obtain ⟨hlarge, hne⟩ := not_or.1 hwritten
    rw [hm', isZero_finite] at hne
    refine Or.inr ⟨m', hm', hunits, hne, ?_⟩
    rcases sixPlaces_cases m.units with hself | hzero | hbig
    · obtain rfl : m' = m := Magnitude.eq_of_units_eq (hunits.trans hself)
      simpa using hlarge
    · exact absurd (hunits.trans hzero) hne
    · exact absLt_negligible_eq_false negative (hunits ▸ hbig)

/-- The numbers that are written differently once written. -/
def IsUnsteady : Binary64 → Prop
  | .finite _ m => IsUnsteadyCount m.units
  | _ => False

instance : (x : Binary64) → Decidable x.IsUnsteady
  | .nan => .isFalse id
  | .infinite _ => .isFalse id
  | .finite _ m => inferInstanceAs (Decidable (IsUnsteadyCount m.units))

/-- Exactly the unsteady numbers change when written again. -/
theorem written_written_eq_iff {x : Binary64} (hx : x.isFinite = true) :
    written (written x) = written x ↔ ¬IsUnsteady (written x) := by
  cases x with
  | nan => simp at hx
  | infinite s => simp at hx
  | finite negative m =>
    rcases written_finite negative m with hzero | ⟨m', hm', hunits, hne, hlarge⟩
    · rw [hzero, written_zero]
      refine iff_of_true rfl fun hunsteady => ?_
      have hpos := unitsPerOne_pos
      have hlow : 2 ^ 32 * unitsPerOne ≤ 0 := hunsteady.1
      omega
    · obtain ⟨m'', hm'', hunits'⟩ := toSixPlaces_finite negative m'
      have hagain := sixPlaces_sixPlaces_eq_iff m.units
      rw [← hunits, ← hunits'] at hagain
      rw [hm']
      show _ ↔ ¬IsUnsteadyCount m'.units
      rw [← hagain, written, hm'', hlarge]
      by_cases hzero : m''.units = 0
      · rw [if_pos (Or.inr ((isZero_finite _ _).2 hzero))]
        refine iff_of_false (fun heq => hne ?_) (fun heq => hne (heq ▸ hzero))
        injection heq with _ hmagnitude
        rw [← hmagnitude]
      · rw [if_neg (by simpa [isZero_finite] using hzero)]
        exact ⟨fun heq => by injection heq with _ hmagnitude; rw [hmagnitude],
          fun heq => by rw [Magnitude.eq_of_units_eq heq]⟩

end Binary64

end CssTransform
