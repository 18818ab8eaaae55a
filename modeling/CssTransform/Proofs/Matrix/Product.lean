import CssTransform.Matrix.Text
import CssTransform.Proofs.Numeric.Agreement
import Mathlib.Data.List.Forall2

/-!
# Products in rounded arithmetic

A product of matrices that begins with the identity is compared with the product that does not. The
identity is no neutral element here. It turns a negative zero into a positive one, and an entry that
is not finite spoils every entry of its column.

## Which choice is load-bearing

Where an entry of the longer product is finite, the same entry of the shorter one agrees with it;
where it is not, nothing is said of that entry. What is not finite is compared for whole matrices
only, and that is why the two relations are kept side by side in `Matrix4.Follows`.

## Main definitions

* `Matrix4.Rel` — a relation between the entries of two matrices, place by place
* `Matrix4.IsFinite` — all entries are finite
* `Matrix4.Follows` — what the product from the identity on has in common with the other

## Main results

* `Matrix4.Follows.mul_right` — one more factor
* `Matrix4.follows_foldl` — products of any length
* `Matrix4.Rel.text_eq` — matrices whose entries agree have one text
-/

namespace CssTransform

open Binary64

/-! ### Relations between entries -/

section Rel

variable {α β : Type} {r s : α → β → Prop}

/-- A relation between the coordinates of two vectors. -/
structure Vector4.Rel (r : α → β → Prop) (v : Vector4 α) (w : Vector4 β) : Prop where
  x : r v.x w.x
  y : r v.y w.y
  z : r v.z w.z
  w : r v.w w.w

/-- A relation between the entries of two matrices. -/
structure Matrix4.Rel (r : α → β → Prop) (a : Matrix4 α) (b : Matrix4 β) : Prop where
  x : a.x.Rel r b.x
  y : a.y.Rel r b.y
  z : a.z.Rel r b.z
  w : a.w.Rel r b.w

theorem Vector4.Rel.forall₂ {v : Vector4 α} {w : Vector4 β} (h : v.Rel r w) :
    List.Forall₂ r v.toList w.toList :=
  .cons h.x (.cons h.y (.cons h.z (.cons h.w .nil)))

theorem Matrix4.Rel.forall₂ {a : Matrix4 α} {b : Matrix4 β} (h : a.Rel r b) :
    List.Forall₂ r a.toList b.toList :=
  List.rel_append (List.rel_append (List.rel_append h.x.forall₂ h.y.forall₂) h.z.forall₂)
    h.w.forall₂

end Rel

/-! ### Finite vectors and matrices -/

/-- All coordinates are finite. -/
structure Vector4.IsFinite (v : Vector4 Binary64) : Prop where
  x : v.x.isFinite = true
  y : v.y.isFinite = true
  z : v.z.isFinite = true
  w : v.w.isFinite = true

/-- All entries are finite. -/
structure Matrix4.IsFinite (m : Matrix4 Binary64) : Prop where
  x : m.x.IsFinite
  y : m.y.IsFinite
  z : m.z.IsFinite
  w : m.w.IsFinite

theorem Matrix4.isFinite_iff {m : Matrix4 Binary64} :
    m.IsFinite ↔ m.toList.all Binary64.isFinite = true := by
  constructor
  · rintro ⟨⟨h1, h2, h3, h4⟩, ⟨h5, h6, h7, h8⟩, ⟨h9, h10, h11, h12⟩, ⟨h13, h14, h15, h16⟩⟩
    simp [Matrix4.toList, Vector4.toList, h1, h2, h3, h4, h5, h6, h7, h8, h9, h10, h11, h12, h13,
      h14, h15, h16]
  · intro h
    simp only [Matrix4.toList, Vector4.toList, List.cons_append, List.nil_append, List.all_cons,
      List.all_nil, Bool.and_true, Bool.and_eq_true] at h
    obtain ⟨h1, h2, h3, h4, h5, h6, h7, h8, h9, h10, h11, h12, h13, h14, h15, h16⟩ := h
    exact ⟨⟨h1, h2, h3, h4⟩, ⟨h5, h6, h7, h8⟩, ⟨h9, h10, h11, h12⟩, ⟨h13, h14, h15, h16⟩⟩

/-! ### One coordinate of a product -/

namespace Vector4

variable {v w : Vector4 Binary64} {a b c d : Binary64}

/-- A sum of four products is finite only if all eight factors are. -/
theorem isFinite_of_sum (h : (v.x * a + v.y * b + v.z * c + v.w * d).isFinite = true) :
    v.IsFinite ∧ a.isFinite = true ∧ b.isFinite = true ∧ c.isFinite = true ∧
      d.isFinite = true := by
  obtain ⟨hxyz, hw⟩ := isFinite_of_add h
  obtain ⟨hxy, hz⟩ := isFinite_of_add hxyz
  obtain ⟨hx, hy⟩ := isFinite_of_add hxy
  obtain ⟨hvx, ha⟩ := isFinite_of_mul hx
  obtain ⟨hvy, hb⟩ := isFinite_of_mul hy
  obtain ⟨hvz, hc⟩ := isFinite_of_mul hz
  obtain ⟨hvw, hd⟩ := isFinite_of_mul hw
  exact ⟨⟨hvx, hvy, hvz, hvw⟩, ha, hb, hc, hd⟩

theorem agrees_sum (h : v.Rel Agrees w) (a b c d : Binary64) :
    (v.x * a + v.y * b + v.z * c + v.w * d).Agrees (w.x * a + w.y * b + w.z * c + w.w * d) :=
  (((h.x.mul_right a).add (h.y.mul_right b)).add (h.z.mul_right c)).add (h.w.mul_right d)

/-- The coordinates of a vector that is finite where it is compared agree. -/
theorem Rel.agrees (h : v.Rel AgreesWhereFinite w) (hv : v.IsFinite) :
    v.Rel Agrees w :=
  ⟨h.x hv.x, h.y hv.y, h.z hv.z, h.w hv.w⟩

theorem Rel.symm (h : v.Rel Agrees w) : w.Rel Agrees v :=
  ⟨h.x.symm, h.y.symm, h.z.symm, h.w.symm⟩

theorem Rel.isFinite (h : v.Rel Agrees w) (hw : w.IsFinite) : v.IsFinite :=
  ⟨h.x.isFinite_eq.trans hw.x, h.y.isFinite_eq.trans hw.y, h.z.isFinite_eq.trans hw.z,
    h.w.isFinite_eq.trans hw.w⟩

/-! ### Rows of a product -/

theorem Rel.apply (h : v.Rel Agrees w) (m : Matrix4 Binary64) :
    (v.apply m).Rel Agrees (w.apply m) :=
  ⟨agrees_sum h _ _ _ _, agrees_sum h _ _ _ _, agrees_sum h _ _ _ _, agrees_sum h _ _ _ _⟩

/-- Where a coordinate of the product is finite, the whole row is. -/
theorem Rel.apply_of_isFinite (h : v.Rel AgreesWhereFinite w)
    (m : Matrix4 Binary64) :
    (v.apply m).Rel AgreesWhereFinite (w.apply m) :=
  ⟨fun hx => agrees_sum (h.agrees (isFinite_of_sum hx).1) _ _ _ _,
    fun hy => agrees_sum (h.agrees (isFinite_of_sum hy).1) _ _ _ _,
    fun hz => agrees_sum (h.agrees (isFinite_of_sum hz).1) _ _ _ _,
    fun hw => agrees_sum (h.agrees (isFinite_of_sum hw).1) _ _ _ _⟩

theorem isFinite_of_apply {m : Matrix4 Binary64} (h : (v.apply m).IsFinite) : v.IsFinite :=
  (isFinite_of_sum h.x).1

end Vector4

/-! ### The identity in front -/

namespace Vector4

theorem one_mul_agrees {x : Binary64} (hx : x.isFinite = true) : (1 * x).Agrees x := by
  cases x with
  | nan => cases hx
  | infinite s => cases hx
  | finite s m => exact Or.inl (one_mul_finite s m)

theorem exists_zero_mul {x : Binary64} (hx : x.isFinite = true) : ∃ s, 0 * x = signedZero s := by
  cases x with
  | nan => cases hx
  | infinite s => cases hx
  | finite s m => exact ⟨s, zero_mul_finite s m⟩

variable {a b c d : Binary64}

/-- A finite column, met by the rows of the identity. -/
theorem agrees_column (ha : a.isFinite = true) (hb : b.isFinite = true) (hc : c.isFinite = true)
    (hd : d.isFinite = true) :
    (1 * a + 0 * b + 0 * c + 0 * d).Agrees a ∧ (0 * a + 1 * b + 0 * c + 0 * d).Agrees b ∧
      (0 * a + 0 * b + 1 * c + 0 * d).Agrees c ∧ (0 * a + 0 * b + 0 * c + 1 * d).Agrees d := by
  obtain ⟨s, hs⟩ := exists_zero_mul ha
  obtain ⟨t, ht⟩ := exists_zero_mul hb
  obtain ⟨u, hu⟩ := exists_zero_mul hc
  obtain ⟨v, hv⟩ := exists_zero_mul hd
  have hplus : ∀ {x y : Binary64} (t : Bool), x.Agrees y → (x + signedZero t).Agrees y :=
    fun t h => (agrees_add_signedZero _ t).trans h
  have hfront : ∀ {x y : Binary64} (t : Bool), x.Agrees y → (signedZero t + x).Agrees y :=
    fun t h => (agrees_signedZero_add _ t).trans h
  rw [hs, ht, hu, hv]
  refine ⟨?_, ?_, ?_, ?_⟩
  · exact hplus v (hplus u (hplus t (one_mul_agrees ha)))
  · exact hplus v (hplus u (hfront s (one_mul_agrees hb)))
  · rw [signedZero_add_signedZero]
    exact hplus v (hfront _ (one_mul_agrees hc))
  · rw [signedZero_add_signedZero, signedZero_add_signedZero]
    exact hfront _ (one_mul_agrees hd)

end Vector4

namespace Matrix4

variable {a p m : Matrix4 Binary64}

/-- The identity in front of a matrix, where an entry of the product is finite. -/
theorem rel_identity_mul (m : Matrix4 Binary64) :
    (identity * m).Rel AgreesWhereFinite m := by
  -- whichever row of the identity meets a column, a finite entry says that the column is finite
  have hcolumn : ∀ (v : Vector4 Binary64) {a b c d : Binary64},
      (v.x * a + v.y * b + v.z * c + v.w * d).isFinite = true →
        (1 * a + 0 * b + 0 * c + 0 * d).Agrees a ∧ (0 * a + 1 * b + 0 * c + 0 * d).Agrees b ∧
          (0 * a + 0 * b + 1 * c + 0 * d).Agrees c ∧ (0 * a + 0 * b + 0 * c + 1 * d).Agrees d := by
    intro v a b c d h
    obtain ⟨-, ha, hb, hc, hd⟩ := Vector4.isFinite_of_sum h
    exact Vector4.agrees_column ha hb hc hd
  exact
    ⟨⟨fun h => (hcolumn ⟨1, 0, 0, 0⟩ h).1, fun h => (hcolumn ⟨1, 0, 0, 0⟩ h).1,
        fun h => (hcolumn ⟨1, 0, 0, 0⟩ h).1, fun h => (hcolumn ⟨1, 0, 0, 0⟩ h).1⟩,
      ⟨fun h => (hcolumn ⟨0, 1, 0, 0⟩ h).2.1, fun h => (hcolumn ⟨0, 1, 0, 0⟩ h).2.1,
        fun h => (hcolumn ⟨0, 1, 0, 0⟩ h).2.1, fun h => (hcolumn ⟨0, 1, 0, 0⟩ h).2.1⟩,
      ⟨fun h => (hcolumn ⟨0, 0, 1, 0⟩ h).2.2.1, fun h => (hcolumn ⟨0, 0, 1, 0⟩ h).2.2.1,
        fun h => (hcolumn ⟨0, 0, 1, 0⟩ h).2.2.1, fun h => (hcolumn ⟨0, 0, 1, 0⟩ h).2.2.1⟩,
      ⟨fun h => (hcolumn ⟨0, 0, 0, 1⟩ h).2.2.2, fun h => (hcolumn ⟨0, 0, 0, 1⟩ h).2.2.2,
        fun h => (hcolumn ⟨0, 0, 0, 1⟩ h).2.2.2, fun h => (hcolumn ⟨0, 0, 0, 1⟩ h).2.2.2⟩⟩

/-- The identity in front of a finite matrix. -/
theorem agrees_identity_mul (hm : m.IsFinite) : (identity * m).Rel Agrees m := by
  obtain ⟨x1, y1, z1, w1⟩ := Vector4.agrees_column hm.x.x hm.y.x hm.z.x hm.w.x
  obtain ⟨x2, y2, z2, w2⟩ := Vector4.agrees_column hm.x.y hm.y.y hm.z.y hm.w.y
  obtain ⟨x3, y3, z3, w3⟩ := Vector4.agrees_column hm.x.z hm.y.z hm.z.z hm.w.z
  obtain ⟨x4, y4, z4, w4⟩ := Vector4.agrees_column hm.x.w hm.y.w hm.z.w hm.w.w
  exact ⟨⟨x1, x2, x3, x4⟩, ⟨y1, y2, y3, y4⟩, ⟨z1, z2, z3, z4⟩, ⟨w1, w2, w3, w4⟩⟩

/-! ### Products -/

theorem Rel.symm (h : a.Rel Agrees p) : p.Rel Agrees a :=
  ⟨h.x.symm, h.y.symm, h.z.symm, h.w.symm⟩

theorem Rel.isFinite (h : a.Rel Agrees p) (hp : p.IsFinite) : a.IsFinite :=
  ⟨h.x.isFinite hp.x, h.y.isFinite hp.y, h.z.isFinite hp.z, h.w.isFinite hp.w⟩

theorem Rel.mul_right (h : a.Rel Agrees p) (m : Matrix4 Binary64) :
    (a * m).Rel Agrees (p * m) :=
  ⟨h.x.apply m, h.y.apply m, h.z.apply m, h.w.apply m⟩

theorem isFinite_of_mul (h : (p * m).IsFinite) : p.IsFinite :=
  ⟨Vector4.isFinite_of_apply h.x, Vector4.isFinite_of_apply h.y, Vector4.isFinite_of_apply h.z,
    Vector4.isFinite_of_apply h.w⟩

/-- What a product that begins with the identity has in common with the product that does not. -/
structure Follows (a p : Matrix4 Binary64) : Prop where
  entries : a.Rel AgreesWhereFinite p
  isFinite : p.IsFinite → a.IsFinite

theorem follows_identity_mul (m : Matrix4 Binary64) : (identity * m).Follows m where
  entries := rel_identity_mul m
  isFinite hm := (agrees_identity_mul hm).isFinite hm

namespace Follows

/-- Where the longer product is finite, all its entries agree with those of the shorter. -/
theorem agrees (h : a.Follows p) (ha : a.IsFinite) : a.Rel Agrees p :=
  ⟨h.entries.x.agrees ha.x, h.entries.y.agrees ha.y, h.entries.z.agrees ha.z,
    h.entries.w.agrees ha.w⟩

/-- One more factor. -/
theorem mul_right (h : a.Follows p) (m : Matrix4 Binary64) : (a * m).Follows (p * m) where
  entries := ⟨h.entries.x.apply_of_isFinite m, h.entries.y.apply_of_isFinite m,
    h.entries.z.apply_of_isFinite m, h.entries.w.apply_of_isFinite m⟩
  isFinite hpm :=
    ((h.agrees (h.isFinite (isFinite_of_mul hpm))).mul_right m).isFinite hpm

theorem isFinite_iff (h : a.Follows p) : a.IsFinite ↔ p.IsFinite :=
  ⟨fun ha => (h.agrees ha).symm.isFinite ha, h.isFinite⟩

end Follows

/-- **Products of any length**, one from the identity on. -/
theorem follows_foldl (h : a.Follows p) (ms : List (Matrix4 Binary64)) :
    (ms.foldl (· * ·) a).Follows (ms.foldl (· * ·) p) := by
  induction ms generalizing a p with
  | nil => exact h
  | cons m ms ih => exact ih (h.mul_right m)

theorem agrees_foldl (h : a.Rel Agrees p) (ms : List (Matrix4 Binary64)) :
    (ms.foldl (· * ·) a).Rel Agrees (ms.foldl (· * ·) p) := by
  induction ms generalizing a p with
  | nil => exact h
  | cons m ms ih => exact ih (h.mul_right m)

/-- Matrices whose entries agree have one text. -/
theorem Rel.text_eq (h : a.Rel Agrees p) : a.text = p.text := by
  have hentries : a.toList.map entryText = p.toList.map entryText := by
    rw [← List.forall₂_eq_eq_eq, List.forall₂_map_left_iff, List.forall₂_map_right_iff]
    exact h.forall₂.imp fun x y hxy => hxy.entryText_eq
  unfold text
  rw [hentries]

end Matrix4

end CssTransform
