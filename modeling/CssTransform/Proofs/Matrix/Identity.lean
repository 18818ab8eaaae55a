import CssTransform.Proofs.Numeric.Written

/-!
# The identity matrix in rounded arithmetic

A product with the identity adds zeros, which may have either sign, to each entry. It gives every
entry back unless the entry is a negative zero, and no number that is written is one.

## Main definitions

* `Binary64.IsProper` — finite, and no negative zero
* `Matrix4.map` — a function applied to every entry

## Main results

* `Matrix4.identity_mul` — the identity times a matrix of proper entries
* `Binary64.isProper_written` — what is written for a finite number is proper
-/

namespace CssTransform

namespace Binary64

-- the count is never to be written out
attribute [local irreducible] unitsPerOne unitLimit

/-- Finite, and no negative zero. -/
def IsProper : Binary64 → Prop
  | .finite negative m => m.units = 0 → negative = false
  | _ => False

theorem IsProper.isFinite {x : Binary64} (h : x.IsProper) : x.isFinite = true := by
  cases x with
  | nan => exact h.elim
  | infinite negative => exact h.elim
  | finite negative m => rfl

theorem isProper_zero : IsProper 0 := fun _ => rfl

/-- What is written for a finite number is proper. -/
theorem isProper_written {x : Binary64} (hx : x.isFinite = true) : x.written.IsProper := by
  cases x with
  | nan => simp at hx
  | infinite negative => simp at hx
  | finite negative m =>
    rcases written_finite negative m with hzero | ⟨m', hm', -, hne, -⟩
    · rw [hzero]
      exact isProper_zero
    · rw [hm']
      exact fun hunits => absurd hunits hne

/-! ### Sums and products with one and zero -/

theorem finite_add_finite (s t : Bool) (m n : Magnitude) :
    (finite s m : Binary64) + finite t n =
      if signedUnits s m + signedUnits t n = 0 then signedZero (s && t)
      else round (signedUnits s m + signedUnits t n < 0)
        (signedUnits s m + signedUnits t n).natAbs 1 := by
  show add (finite s m) (finite t n) = _
  rw [add]

theorem one_mul_finite (s : Bool) (m : Magnitude) : (1 : Binary64) * finite s m = finite s m := by
  show (finite false ⟨unitsPerOne, isRepresentable_one⟩ : Binary64) * finite s m = _
  rw [finite_mul_finite, Bool.false_xor]
  refine round_eq_finite s ?_
  rw [Nat.mul_comm]
  exact roundUnits_of_dvd unitsPerOne_pos m.representable.1

theorem zero_mul_finite (s : Bool) (m : Magnitude) :
    (0 : Binary64) * finite s m = signedZero s := by
  show (finite false ⟨0, isRepresentable_zero⟩ : Binary64) * finite s m = _
  rw [finite_mul_finite, Bool.false_xor, Nat.zero_mul]
  exact Decimal.round_eq_signedZero s unitsPerOne_pos

theorem round_signedUnits (s : Bool) {m : Magnitude} (hm : m.units ≠ 0) :
    round (signedUnits s m < 0) (signedUnits s m).natAbs 1 = finite s m := by
  have hround := roundUnits_of_dvd Nat.one_pos m.representable.1
  rw [Nat.mul_one] at hround
  cases s with
  | true =>
    have hneg : signedUnits true m = -(m.units : ℤ) := rfl
    rw [hneg, decide_eq_true (by omega), Int.natAbs_neg, Int.natAbs_natCast]
    exact round_eq_finite true hround
  | false =>
    have hpos : signedUnits false m = (m.units : ℤ) := rfl
    rw [hpos, decide_eq_false (by omega), Int.natAbs_natCast]
    exact round_eq_finite false hround

theorem signedUnits_eq_zero (s : Bool) {m : Magnitude} (h : m.units = 0) : signedUnits s m = 0 := by
  rw [signedUnits, h]
  simp

theorem signedZero_add_signedZero (s t : Bool) :
    signedZero s + signedZero t = signedZero (s && t) := by
  simp only [signedZero]
  rw [finite_add_finite, signedUnits_eq_zero s rfl, signedUnits_eq_zero t rfl]
  rfl

theorem signedUnits_ne_zero (s : Bool) {m : Magnitude} (h : m.units ≠ 0) : signedUnits s m ≠ 0 := by
  rw [signedUnits]
  split <;> omega

theorem finite_eq_signedZero (s : Bool) {m : Magnitude} (h : m.units = 0) :
    finite s m = signedZero s := by
  rw [signedZero, Magnitude.eq_of_units_eq (n := ⟨0, isRepresentable_zero⟩) h]

theorem IsProper.add_signedZero {x : Binary64} (hx : x.IsProper) (t : Bool) :
    x + signedZero t = x := by
  cases x with
  | nan => exact hx.elim
  | infinite s => exact hx.elim
  | finite s m =>
    by_cases hm : m.units = 0
    · rw [finite_eq_signedZero s hm, hx hm, signedZero_add_signedZero, Bool.false_and]
    · rw [signedZero, finite_add_finite, signedUnits_eq_zero t rfl, Int.add_zero,
        if_neg (signedUnits_ne_zero s hm), round_signedUnits s hm]

theorem IsProper.signedZero_add {x : Binary64} (hx : x.IsProper) (t : Bool) :
    signedZero t + x = x := by
  cases x with
  | nan => exact hx.elim
  | infinite s => exact hx.elim
  | finite s m =>
    by_cases hm : m.units = 0
    · rw [finite_eq_signedZero s hm, hx hm, signedZero_add_signedZero, Bool.and_false]
    · rw [signedZero, finite_add_finite, signedUnits_eq_zero t rfl, Int.zero_add,
        if_neg (signedUnits_ne_zero s hm), round_signedUnits s hm]

theorem IsProper.one_mul {x : Binary64} (hx : x.IsProper) : 1 * x = x := by
  cases x with
  | nan => exact hx.elim
  | infinite s => exact hx.elim
  | finite s m => exact one_mul_finite s m

theorem IsProper.zero_mul {x : Binary64} (hx : x.IsProper) : ∃ s, 0 * x = signedZero s := by
  cases x with
  | nan => exact hx.elim
  | infinite s => exact hx.elim
  | finite s m => exact ⟨s, zero_mul_finite s m⟩

end Binary64

/-! ### Matrices -/

namespace Matrix4

variable {α β : Type}

/-- A function applied to every entry. -/
def map (f : α → β) (m : Matrix4 α) : Matrix4 β where
  x := ⟨f m.x.x, f m.x.y, f m.x.z, f m.x.w⟩
  y := ⟨f m.y.x, f m.y.y, f m.y.z, f m.y.w⟩
  z := ⟨f m.z.x, f m.z.y, f m.z.z, f m.z.w⟩
  w := ⟨f m.w.x, f m.w.y, f m.w.z, f m.w.w⟩

@[simp] theorem toList_map (f : α → β) (m : Matrix4 α) : (m.map f).toList = m.toList.map f := rfl

end Matrix4

namespace Vector4

open Binary64

variable {m : Matrix4 Binary64}

/-- A column of proper entries, met by a row with a single one: the other terms are zeros. -/
theorem column_terms {a b c d : Binary64} (ha : a.IsProper) (hb : b.IsProper) (hc : c.IsProper)
    (hd : d.IsProper) :
    1 * a + 0 * b + 0 * c + 0 * d = a ∧ 0 * a + 1 * b + 0 * c + 0 * d = b ∧
      0 * a + 0 * b + 1 * c + 0 * d = c ∧ 0 * a + 0 * b + 0 * c + 1 * d = d := by
  obtain ⟨s, hs⟩ := ha.zero_mul
  obtain ⟨t, ht⟩ := hb.zero_mul
  obtain ⟨u, hu⟩ := hc.zero_mul
  obtain ⟨v, hv⟩ := hd.zero_mul
  rw [hs, ht, hu, hv, ha.one_mul, hb.one_mul, hc.one_mul, hd.one_mul]
  refine ⟨?_, ?_, ?_, ?_⟩
  · rw [ha.add_signedZero, ha.add_signedZero, ha.add_signedZero]
  · rw [hb.signedZero_add, hb.add_signedZero, hb.add_signedZero]
  · rw [signedZero_add_signedZero, hc.signedZero_add, hc.add_signedZero]
  · rw [signedZero_add_signedZero, signedZero_add_signedZero, hd.signedZero_add]

end Vector4

/-- The identity times a matrix of proper entries is that matrix. -/
theorem Matrix4.identity_mul {m : Matrix4 Binary64} (h : ∀ x ∈ m.toList, x.IsProper) :
    Matrix4.identity * m = m := by
  obtain ⟨⟨xx, xy, xz, xw⟩, ⟨yx, yy, yz, yw⟩, ⟨zx, zy, zz, zw⟩, ⟨wx, wy, wz, ww⟩⟩ := m
  simp only [Matrix4.toList, Vector4.toList, List.cons_append, List.nil_append, List.mem_cons,
    List.not_mem_nil, or_false, forall_eq_or_imp, forall_eq] at h
  obtain ⟨hxx, hxy, hxz, hxw, hyx, hyy, hyz, hyw, hzx, hzy, hzz, hzw, hwx, hwy, hwz, hww⟩ := h
  obtain ⟨x1, x2, x3, x4⟩ := Vector4.column_terms hxx hyx hzx hwx
  obtain ⟨y1, y2, y3, y4⟩ := Vector4.column_terms hxy hyy hzy hwy
  obtain ⟨z1, z2, z3, z4⟩ := Vector4.column_terms hxz hyz hzz hwz
  obtain ⟨w1, w2, w3, w4⟩ := Vector4.column_terms hxw hyw hzw hww
  show Matrix4.mul _ _ = _
  unfold Matrix4.mul Matrix4.identity Vector4.apply
  dsimp only
  rw [x1, x2, x3, x4, y1, y2, y3, y4, z1, z2, z3, z4, w1, w2, w3, w4]

end CssTransform
