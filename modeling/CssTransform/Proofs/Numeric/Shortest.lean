import CssTransform.Proofs.Numeric.PlainText

/-!
# No shorter decimal reads back

The search for the shortest decimal of a number looks at two decimals of each grid only, and it
begins on a grid that was chosen by an estimate. Neither loses anything: if any decimal of a grid
reads back, one of the two neighbours of the number does, and no decimal of the first grid, nor of a
coarser one, reads back.

So the decimal that is found is on a grid at least as coarse as any that holds a decimal reading
back, and its last digit is no zero.

## Main results

* `Binary64.exists_onGrid` — one of the two neighbours reads back if any decimal does
* `Binary64.lt_coarseGrid` — grids with a decimal that reads back are finer than the first one
* `Binary64.exists_shortest` — the grid and the last digit of the decimal that is found
-/

namespace CssTransform

namespace Binary64

-- the counts are never to be written out
attribute [local irreducible] unitsPerOne finestSteps

variable {n i q : ℕ}

/-! ### Neighbours on a grid -/

/-- A decimal that reads back has all decimals between it and the number read back. -/
theorem readsBack_of_between {q' : ℕ} (hn : spacing n ∣ n) (h : ReadsBack n i q)
    (hq' : q * 10 ^ i ≤ q' * 10 ^ i ∧ q' * 10 ^ i ≤ n * finestSteps ∨
      n * finestSteps ≤ q' * 10 ^ i ∧ q' * 10 ^ i ≤ q * 10 ^ i) : ReadsBack n i q' := by
  have hread : roundUnits (q * 10 ^ i) finestSteps = n := h
  show roundUnits (q' * 10 ^ i) finestSteps = n
  refine Nat.le_antisymm ?_ ?_
  · rcases hq' with ⟨-, hle⟩ | ⟨-, hle⟩
    · exact roundUnits_le finestSteps_pos hn hle
    · rw [← hread]
      exact roundUnits_mono finestSteps_pos hle
  · rcases hq' with ⟨hle, -⟩ | ⟨hle, -⟩
    · rw [← hread]
      exact roundUnits_mono finestSteps_pos hle
    · exact le_roundUnits finestSteps_pos hn hle

/-- If any decimal of a grid reads back, one of the two neighbours of the number does. -/
theorem exists_onGrid (hn : spacing n ∣ n) (h : ReadsBack n i q) : ∃ q', onGrid n i = some q' := by
  have hstep : 0 < 10 ^ i := Nat.pow_pos (by decide)
  have hfloor : n * finestSteps / 10 ^ i * 10 ^ i ≤ n * finestSteps := Nat.div_mul_le_self _ _
  have hceil : n * finestSteps < (n * finestSteps / 10 ^ i + 1) * 10 ^ i := by
    rw [Nat.mul_comm _ (10 ^ i)]
    exact Nat.lt_mul_div_succ _ hstep
  have hneighbour : ReadsBack n i (n * finestSteps / 10 ^ i) ∨
      ReadsBack n i (n * finestSteps / 10 ^ i + 1) := by
    rcases Nat.lt_or_ge (n * finestSteps / 10 ^ i) q with hlt | hge
    · exact .inr (readsBack_of_between hn h
        (.inr ⟨Nat.le_of_lt hceil, Nat.mul_le_mul_right _ hlt⟩))
    · exact .inl (readsBack_of_between hn h (.inl ⟨Nat.mul_le_mul_right _ hge, hfloor⟩))
  unfold onGrid
  dsimp only
  split_ifs with hupper hlower hlower
  · exact ⟨_, rfl⟩
  · exact ⟨_, rfl⟩
  · exact ⟨_, rfl⟩
  · exact absurd hneighbour (not_or.2 ⟨hlower, hupper⟩)

/-! ### Grids that are too coarse -/

/-- The steps of the first grid are more than four times the number. -/
theorem four_mul_lt_ten_pow_coarseGrid (n : ℕ) : 4 * (n * finestSteps) < 10 ^ coarseGrid n := by
  unfold coarseGrid
  generalize n * finestSteps = a
  have ha : a < 2 ^ (a.log2 + 1) := Nat.lt_log2_self
  generalize a.log2 = l at *
  generalize hg : (l + 3) * 25 / 83 + 1 = g
  have hexponent : 25 * (l + 3) ≤ 83 * g := by omega
  -- the exponent was chosen so that the twenty-fifth powers compare
  have hpow : (2 ^ (l + 3)) ^ 25 < (10 ^ g) ^ 25 := by
    calc (2 ^ (l + 3)) ^ 25 = 2 ^ (25 * (l + 3)) := by rw [← Nat.pow_mul, Nat.mul_comm]
      _ ≤ 2 ^ (83 * g) := Nat.pow_le_pow_right (by decide) hexponent
      _ = (2 ^ 83) ^ g := Nat.pow_mul ..
      _ < (10 ^ 25) ^ g := Nat.pow_lt_pow_left (by decide) (by omega)
      _ = (10 ^ g) ^ 25 := Nat.pow_right_comm ..
  have hlt : 2 ^ (l + 3) < 10 ^ g := lt_of_pow_lt_pow_left₀ 25 (Nat.zero_le _) hpow
  calc 4 * a < 4 * 2 ^ (l + 1) := Nat.mul_lt_mul_of_pos_left ha (by decide)
    _ = 2 ^ (l + 3) := by rw [Nat.pow_add 2 (l + 1) 2]; ring
    _ < 10 ^ g := hlt

/-- Rounding takes away less than half. -/
theorem le_two_mul_roundUnits {a b : ℕ} (hb : 0 < b) (h : b ≤ a) : a ≤ 2 * (roundUnits a b * b) := by
  have hquot : a / b ≠ 0 := Nat.ne_of_gt (Nat.div_pos h hb)
  have hspacing : b * spacing (a / b) ≤ a := by
    calc b * spacing (a / b) ≤ b * 2 ^ (a / b).log2 :=
          Nat.mul_le_mul_left _ (Nat.pow_le_pow_right (by decide) (Nat.sub_le _ _))
      _ ≤ b * (a / b) := Nat.mul_le_mul_left _ (Nat.log2_self_le hquot)
      _ ≤ a := Nat.mul_div_le a b
  have herror := roundUnits_error_below (a := a) hb
  omega

/-- No decimal of the first grid or of a coarser one reads back. -/
theorem lt_coarseGrid (hn : n ≠ 0) (h : ReadsBack n i q) : i < coarseGrid n := by
  by_contra hge
  have hread : roundUnits (q * 10 ^ i) finestSteps = n := h
  have hq : q ≠ 0 := by
    rintro rfl
    rw [Nat.zero_mul, Decimal.roundUnits_eq_zero (by simpa using finestSteps_pos)] at hread
    exact hn hread.symm
  have hlarge : 4 * (n * finestSteps) < q * 10 ^ i := by
    calc 4 * (n * finestSteps) < 10 ^ coarseGrid n := four_mul_lt_ten_pow_coarseGrid n
      _ ≤ 10 ^ i := Nat.pow_le_pow_right (by decide) (Nat.not_lt.1 hge)
      _ ≤ q * 10 ^ i := Nat.le_mul_of_pos_left _ (Nat.pos_of_ne_zero hq)
  have hunit : finestSteps ≤ n * finestSteps := Nat.le_mul_of_pos_left _ (Nat.pos_of_ne_zero hn)
  have hhalf := le_two_mul_roundUnits finestSteps_pos (a := q * 10 ^ i) (by omega)
  rw [hread] at hhalf
  omega

/-! ### The decimal that is found -/

/-- A decimal that ends in zero is a decimal of the next grid. -/
theorem ReadsBack.of_mul_ten (h : ReadsBack n i (10 * q)) : ReadsBack n (i + 1) q := by
  have hread : roundUnits (10 * q * 10 ^ i) finestSteps = n := h
  show roundUnits (q * 10 ^ (i + 1)) finestSteps = n
  rw [← hread, Nat.pow_succ]
  congr 1
  ring

/-- **The shortest decimal** of a number is on a grid at least as coarse as any that holds a decimal
reading back, and it does not end in zero. -/
theorem exists_shortest (m : Magnitude) (hm : m.units ≠ 0) (hi : 0 < i)
    (h : ReadsBack m.units i q) :
    ∃ j d, i ≤ j ∧ m.shortest = ⟨d, (j : ℕ) - 1074⟩ ∧ d % 10 ≠ 0 := by
  have hrep := m.representable.1
  have hfound : ∀ {k d}, ReadsBack m.units k d →
      k ≤ coarseGrid m.units ∧ onGrid m.units k ≠ none := by
    intro k d hread
    obtain ⟨d', hd'⟩ := exists_onGrid hrep hread
    exact ⟨Nat.le_of_lt (lt_coarseGrid hm hread), by rw [hd']; exact nofun⟩
  obtain ⟨-, hnone⟩ | ⟨j, d, -, hd, hshortest, hnone⟩ :=
    firstFrom_cases (onGrid m.units) ⟨m.units * finestSteps, -1074⟩ (coarseGrid m.units)
  · exact absurd (hnone i hi (hfound h).1) (hfound h).2
  · refine ⟨j, d, ?_, hshortest, ?_⟩
    · by_contra hlt
      exact (hfound h).2 (hnone i (Nat.not_le.1 hlt) (hfound h).1)
    · intro hzero
      have hread : ReadsBack m.units j (10 * (d / 10)) := by
        rw [Nat.mul_div_cancel' (Nat.dvd_of_mod_eq_zero hzero)]
        exact readsBack_of_onGrid hd
      have hnext := hfound hread.of_mul_ten
      exact hnext.2 (hnone (j + 1) (Nat.lt_succ_self j) hnext.1)

end Binary64

end CssTransform
