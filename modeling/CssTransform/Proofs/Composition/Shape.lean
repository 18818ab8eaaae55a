import CssTransform.Proofs.Composition.Finite
import CssTransform.Proofs.Composition.Rejection
import CssTransform.Proofs.Numeric.Canonical

/-!
# Affine and planar compositions

With row vectors an affine map has the last unit vector as its last column, and a map of the plane
has the third unit vector as its third column and as its third row too. All functions but `matrix3d`
give affine matrices, and those of the plane give planar ones. A product keeps both shapes, so a
conversion shows them whatever the number of calls.

## Which choice is load-bearing

In rounded arithmetic a shape is kept up to the sign of a zero, and only where the left factor is
finite: zero times infinity is not zero. That every matrix on the way is finite is known from the
end, since a conversion succeeds with a finite matrix only.

## Main definitions

* `Matrix4.IsAffine`, `Matrix4.IsPlanar` — the two shapes, up to the sign of a zero
* `TransformFunction.isPlanar` — the functions of the plane

## Main results

* `Matrix4.IsAffine.mul`, `Matrix4.IsPlanar.mul` — products
* `Composition.keeps_of_foldlM` — what finite products keep, compositions keep
* `exists_shape_of_convert?` — the zeros and ones of a conversion
-/

namespace CssTransform

open Binary64 (Agrees)

/-! ### Unit columns -/

namespace Binary64

variable {x y z : Binary64}

theorem agrees_zero_of_isZero (h : x.isZero = true) : x.Agrees 0 := .inr ⟨h, rfl⟩

theorem Agrees.isZero (h : x.Agrees 0) : x.isZero = true := by
  rcases h with rfl | ⟨hx, -⟩
  · rfl
  · exact hx

theorem Agrees.eq_one (h : x.Agrees 1) : x = 1 := by
  rcases h with rfl | ⟨-, hone⟩
  · rfl
  · exact absurd hone (by decide +kernel)

/-- A finite number times a zero is a zero. -/
theorem mul_agrees_zero (hx : x.isFinite = true) (hz : z.Agrees 0) : (x * z).Agrees 0 := by
  obtain ⟨t, rfl⟩ := eq_signedZero_of_isZero hz.isZero
  cases x with
  | nan => cases hx
  | infinite s => cases hx
  | finite s m =>
    rw [signedZero, finite_mul_finite, Nat.mul_zero, Decimal.round_eq_signedZero _ unitsPerOne_pos]
    exact agrees_zero_of_isZero rfl

/-- A finite number times one is that number. -/
theorem mul_agrees_self (hx : x.isFinite = true) (hz : z.Agrees 1) : (x * z).Agrees x := by
  obtain rfl := hz.eq_one
  cases x with
  | nan => cases hx
  | infinite s => cases hx
  | finite s m =>
    have hcomm : (finite s m : Binary64) * 1 = 1 * finite s m := by
      show finite s m * finite false ⟨unitsPerOne, isRepresentable_one⟩ =
        finite false ⟨unitsPerOne, isRepresentable_one⟩ * finite s m
      rw [finite_mul_finite, finite_mul_finite, Bool.xor_comm, Nat.mul_comm]
    rw [hcomm, one_mul_finite]
    exact Agrees.refl _

theorem Agrees.add_zero (hx : x.Agrees z) (hy : y.Agrees 0) : (x + y).Agrees z :=
  (hx.add hy).trans (agrees_add_signedZero z false)

theorem Agrees.zero_add (hx : x.Agrees 0) (hy : y.Agrees z) : (x + y).Agrees z :=
  (hx.add hy).trans (agrees_signedZero_add z false)

end Binary64

namespace Vector4

variable {v : Vector4 Binary64}

theorem Rel.refl (v : Vector4 Binary64) : v.Rel Agrees v :=
  ⟨Agrees.refl _, Agrees.refl _, Agrees.refl _, Agrees.refl _⟩

theorem Rel.trans {w u : Vector4 Binary64} (h : v.Rel Agrees w) (h' : w.Rel Agrees u) :
    v.Rel Agrees u :=
  ⟨h.x.trans h'.x, h.y.trans h'.y, h.z.trans h'.z, h.w.trans h'.w⟩

end Vector4

namespace Matrix4

section

variable {α : Type}

/-- The third column. -/
def thirdColumn (m : Matrix4 α) : Vector4 α := ⟨m.x.z, m.y.z, m.z.z, m.w.z⟩

/-- The last column. -/
def lastColumn (m : Matrix4 α) : Vector4 α := ⟨m.x.w, m.y.w, m.z.w, m.w.w⟩

end

/-- The matrix of an affine map: the last column is the last unit vector. -/
def IsAffine (m : Matrix4 Binary64) : Prop := m.lastColumn.Rel Agrees identity.w

/-- The matrix of an affine map of the plane, which leaves the third coordinate alone. -/
structure IsPlanar (m : Matrix4 Binary64) : Prop where
  affine : m.IsAffine
  column : m.thirdColumn.Rel Agrees identity.z
  row : m.z.Rel Agrees identity.z

variable {m p : Matrix4 Binary64} {v : Vector4 Binary64}

theorem IsAffine.entries (h : m.IsAffine) :
    m.x.w.Agrees 0 ∧ m.y.w.Agrees 0 ∧ m.z.w.Agrees 0 ∧ m.w.w.Agrees 1 :=
  ⟨h.x, h.y, h.z, h.w⟩

theorem IsPlanar.entries (h : m.IsPlanar) :
    (m.x.z.Agrees 0 ∧ m.y.z.Agrees 0 ∧ m.z.z.Agrees 1 ∧ m.w.z.Agrees 0) ∧
      m.z.x.Agrees 0 ∧ m.z.y.Agrees 0 :=
  ⟨⟨h.column.x, h.column.y, h.column.z, h.column.w⟩, h.row.x, h.row.y⟩

theorem IsAffine.apply (hm : m.IsAffine) (hv : v.IsFinite) : (v.apply m).w.Agrees v.w := by
  have hx := Binary64.mul_agrees_zero hv.x hm.x
  have hy := Binary64.mul_agrees_zero hv.y hm.y
  have hz := Binary64.mul_agrees_zero hv.z hm.z
  exact ((hx.add_zero hy).add_zero hz).zero_add (Binary64.mul_agrees_self hv.w hm.w)

theorem IsPlanar.apply (hm : m.IsPlanar) (hv : v.IsFinite) : (v.apply m).z.Agrees v.z := by
  have hx := Binary64.mul_agrees_zero hv.x hm.column.x
  have hy := Binary64.mul_agrees_zero hv.y hm.column.y
  have hw := Binary64.mul_agrees_zero hv.w hm.column.w
  exact ((hx.add_zero hy).zero_add (Binary64.mul_agrees_self hv.z hm.column.z)).add_zero hw

/-- The last column of a product with an affine matrix is that of the left factor. -/
theorem IsAffine.lastColumn_mul (hm : m.IsAffine) (hp : p.IsFinite) :
    (p * m).lastColumn.Rel Agrees p.lastColumn :=
  ⟨hm.apply hp.x, hm.apply hp.y, hm.apply hp.z, hm.apply hp.w⟩

/-- The third column of a product with a planar matrix is that of the left factor. -/
theorem IsPlanar.thirdColumn_mul (hm : m.IsPlanar) (hp : p.IsFinite) :
    (p * m).thirdColumn.Rel Agrees p.thirdColumn :=
  ⟨hm.apply hp.x, hm.apply hp.y, hm.apply hp.z, hm.apply hp.w⟩

/-- **Products of affine matrices** are affine. -/
theorem IsAffine.mul (hp : p.IsAffine) (hm : m.IsAffine) (hfinite : p.IsFinite) :
    (p * m).IsAffine :=
  (hm.lastColumn_mul hfinite).trans hp

/-- **Products of planar matrices** are planar. -/
theorem IsPlanar.mul (hp : p.IsPlanar) (hm : m.IsPlanar) (hpfinite : p.IsFinite)
    (hmfinite : m.IsFinite) : (p * m).IsPlanar where
  affine := hp.affine.mul hm.affine hpfinite
  column := (hm.thirdColumn_mul hpfinite).trans hp.column
  row := by
    -- the third row of the left factor is a unit vector and picks the third row of the right one
    have hpick : (identity.z.apply m).Rel Agrees m.z := (agrees_identity_mul hmfinite).z
    exact ((hp.row.apply m).trans hpick).trans hm.row

end Matrix4

/-! ### Elementary matrices -/

namespace TransformFunction

/-- Whether the function acts in the plane. -/
def isPlanar : TransformFunction → Bool
  | translate | translateX | translateY | scale | scaleX | scaleY | rotateZ | skewX | skewY
  | matrix => true
  | _ => false

end TransformFunction

namespace Call

variable {angles : AngleFunctions Binary64} {call : Call Binary64} {m : Matrix4 Binary64}

theorem exists_planar_of_planar (h : call.planar = .ok m) :
    ∃ a b c d e f, m = .planar a b c d e f := by
  rw [planar] at h
  split at h
  · cases h
    exact ⟨_, _, _, _, _, _, rfl⟩
  · cases h

/-- Every function but `matrix3d` has affine matrices. -/
theorem isAffine_of_elementary (h : call.elementary angles = .ok m)
    (hfunction : call.function? ≠ some .matrix3d) : m.IsAffine := by
  rw [elementary] at h
  split at h
  case h_16 =>
    obtain ⟨a, b, c, d, e, f, rfl⟩ := exists_planar_of_planar h
    exact Vector4.Rel.refl _
  case h_17 hspatial => exact absurd hspatial hfunction
  case h_18 => cases h
  all_goals
    cases h
    exact Vector4.Rel.refl _

/-- The functions of the plane have planar matrices. -/
theorem isPlanar_of_elementary {f : TransformFunction} (h : call.elementary angles = .ok m)
    (hfunction : call.function? = some f) (hf : f.isPlanar = true) : m.IsPlanar := by
  have haffine : m.IsAffine := by
    refine isAffine_of_elementary h fun hspatial => ?_
    cases hfunction.symm.trans hspatial
    cases hf
  rw [elementary, hfunction] at h
  cases f with
  | matrix =>
    obtain ⟨a, b, c, d, e, f, rfl⟩ := exists_planar_of_planar h
    exact ⟨haffine, Vector4.Rel.refl _, Vector4.Rel.refl _⟩
  | translateZ | translate3d | scaleZ | scale3d | rotateX | rotateY | matrix3d => cases hf
  | translateX | translateY | translate | scaleX | scaleY | scale | rotateZ | skewX | skewY =>
    cases h
    exact ⟨haffine, Vector4.Rel.refl _, Vector4.Rel.refl _⟩

end Call

/-! ### Compositions -/

theorem Matrix4.isAffine_identity : (identity : Matrix4 Binary64).IsAffine := Vector4.Rel.refl _

theorem Matrix4.isPlanar_identity : (identity : Matrix4 Binary64).IsPlanar :=
  ⟨isAffine_identity, Vector4.Rel.refl _, Vector4.Rel.refl _⟩

namespace Composition

variable {angles : AngleFunctions Binary64} {policy : InvalidCallPolicy}
  {calls : List (Call Binary64)} {composed composed' : Matrix4 Binary64}

/-- **What finite products keep, compositions keep**: a property of what was composed before the
calls and of the matrices of the calls is one of what they are composed to, if that is finite. -/
theorem keeps_of_foldlM {P : Matrix4 Binary64 → Prop}
    (hmul : ∀ p m, P p → P m → p.IsFinite → m.IsFinite → P (p * m))
    (hcalls : ∀ call ∈ calls, ∀ m, call.elementary angles = .ok m → P m)
    (h : calls.foldlM (step angles policy) composed = .ok composed')
    (hfinite : composed'.IsFinite) (hcomposed : P composed) : P composed' := by
  induction calls generalizing composed with
  | nil =>
    cases h
    exact hcomposed
  | cons call calls ih =>
    obtain ⟨next, hstep, hrest⟩ := exists_of_foldlM_cons h
    obtain ⟨hcall, hcalls⟩ := List.forall_mem_cons.1 hcalls
    refine ih hcalls hrest ?_
    -- what comes next is finite because what comes last is
    have hnext : next.IsFinite := (isFinite_of_foldlM hrest hfinite).1
    obtain ⟨m, helementary, rfl⟩ | ⟨e, -, -, rfl⟩ := step_cases hstep
    · obtain ⟨hp, hm⟩ := hnext.of_mul
      exact hmul composed m hcomposed (hcall m helementary) hp hm
    · exact hcomposed

end Composition

/-! ### Conversions -/

/-- **The zeros and ones of a conversion.** A conversion is a call of `matrix3d` with sixteen
canonical numbers. If no accepted call of the value is one of `matrix3d`, the fourth, the eighth and
the twelfth of them are `0` and the last is `1`. If all accepted calls are of functions of the
plane, only six of them can be other than in the text of the identity: the first two, the two behind
the fourth, and the two behind the twelfth. -/
theorem exists_shape_of_convert? {policy : InvalidCallPolicy} {value s : List Char}
    (h : convert? policy value = .ok (some s)) :
    ∃ (calls : List (Call Binary64)) (numbers : List (List Char)),
      Value.calls value = .ok calls ∧ numbers.length = 16 ∧
      (∀ number ∈ numbers, IsCanonicalNumber 6 number) ∧
      s = "matrix3d(".toList ++ (", ".toList).intercalate numbers ++ [')'] ∧
      ((∀ call ∈ calls, call.isAccepted Binary64.angles = true →
          call.function? ≠ some .matrix3d) →
        numbers[3]? = some ['0'] ∧ numbers[7]? = some ['0'] ∧ numbers[11]? = some ['0'] ∧
          numbers[15]? = some ['1']) ∧
      ((∀ call ∈ calls, call.isAccepted Binary64.angles = true →
          ∃ f, call.function? = some f ∧ f.isPlanar = true) →
        ∃ a b c d e f, numbers = [a, b, ['0'], ['0'], c, d, ['0'], ['0'], ['0'], ['0'], ['1'], ['0'],
          e, f, ['0'], ['1']]) := by
  obtain ⟨calls, m, hcalls, hcompose, hall, rfl⟩ := exists_composed_of_convert? h
  have hfold := Composition.foldlM_of_compose hcompose
  have hfinite : m.IsFinite := Matrix4.isFinite_iff.2 (List.all_eq_true.2 hall)
  have hzero : ∀ {x : Binary64}, x.Agrees 0 → x.entryText = ['0'] := fun hx =>
    hx.entryText_eq.trans (by decide +kernel)
  have hone : ∀ {x : Binary64}, x.Agrees 1 → x.entryText = ['1'] := fun hx =>
    hx.entryText_eq.trans (by decide +kernel)
  refine ⟨calls, m.toList.map Binary64.entryText, hcalls, List.length_map _, ?_, rfl, ?_, ?_⟩
  · intro number hnumber
    obtain ⟨x, hx, rfl⟩ := List.mem_map.1 hnumber
    exact Binary64.isCanonicalNumber_entryText (hall x hx)
  · intro hfunctions
    have haffine : m.IsAffine := by
      refine Composition.keeps_of_foldlM (fun p m hp hm hpfinite _ => hp.mul hm hpfinite) ?_ hfold
        hfinite Matrix4.isAffine_identity
      intro call hcall m' helementary
      exact Call.isAffine_of_elementary helementary
        (hfunctions call hcall (Call.isAccepted_of_ok helementary))
    obtain ⟨hxw, hyw, hzw, hww⟩ := haffine.entries
    exact ⟨congrArg some (hzero hxw), congrArg some (hzero hyw), congrArg some (hzero hzw),
      congrArg some (hone hww)⟩
  · intro hfunctions
    have hplanar : m.IsPlanar := by
      refine Composition.keeps_of_foldlM
        (fun p m hp hm hpfinite hmfinite => hp.mul hm hpfinite hmfinite) ?_ hfold hfinite
        Matrix4.isPlanar_identity
      intro call hcall m' helementary
      obtain ⟨f, hfunction, hf⟩ := hfunctions call hcall (Call.isAccepted_of_ok helementary)
      exact Call.isPlanar_of_elementary helementary hfunction hf
    refine ⟨m.x.x.entryText, m.x.y.entryText, m.y.x.entryText, m.y.y.entryText, m.w.x.entryText,
      m.w.y.entryText, ?_⟩
    show [_, _, m.x.z.entryText, m.x.w.entryText, _, _, m.y.z.entryText, m.y.w.entryText,
      m.z.x.entryText, m.z.y.entryText, m.z.z.entryText, m.z.w.entryText, _, _, m.w.z.entryText,
      m.w.w.entryText] = _
    obtain ⟨hxw, hyw, hzw, hww⟩ := hplanar.affine.entries
    obtain ⟨⟨hxz, hyz, hzz, hwz⟩, hzx, hzy⟩ := hplanar.entries
    rw [hzero hxz, hzero hxw, hzero hyz, hzero hyw, hzero hzx, hzero hzy, hone hzz, hzero hzw,
      hzero hwz, hone hww]

/-- Two functions of the plane with a call between them that has no matrix. The product has negative
zeros. -/
theorem exists_shape_of_convert?_translate :
    convert? .skip "translate(10px, 20px) foo(1) scale(-2)".toList =
        .ok (some "matrix3d(-2, 0, 0, 0, 0, -2, 0, 0, 0, 0, 1, 0, -20, -40, 0, 1)".toList) ∧
      ∃ a b c d e f, "matrix3d(-2, 0, 0, 0, 0, -2, 0, 0, 0, 0, 1, 0, -20, -40, 0, 1)".toList =
        "matrix3d(".toList ++ (", ".toList).intercalate [a, b, ['0'], ['0'], c, d, ['0'], ['0'],
          ['0'], ['0'], ['1'], ['0'], e, f, ['0'], ['1']] ++ [')'] := by
  have hconvert : convert? .skip "translate(10px, 20px) foo(1) scale(-2)".toList =
      .ok (some "matrix3d(-2, 0, 0, 0, 0, -2, 0, 0, 0, 0, 1, 0, -20, -40, 0, 1)".toList) := by
    decide +kernel
  have hcalls : Value.calls "translate(10px, 20px) foo(1) scale(-2)".toList =
      .ok [⟨"translate".toList, [some (.ofNat false 10), some (.ofNat false 20)]⟩,
        ⟨"foo".toList, [some 1]⟩, ⟨"scale".toList, [some (.ofNat true 2)]⟩] := by
    decide +kernel
  obtain ⟨calls, numbers, hcalls', -, -, htext, -, hplanar⟩ := exists_shape_of_convert? hconvert
  obtain rfl := Except.ok.inj (hcalls.symm.trans hcalls')
  obtain ⟨a, b, c, d, e, f, rfl⟩ := hplanar <| by
    simp only [List.forall_mem_cons]
    refine ⟨fun _ => ⟨.translate, by decide, rfl⟩, fun hfoo => ?_,
      fun _ => ⟨.scale, by decide, rfl⟩, nofun⟩
    exact absurd hfoo (by decide)
  exact ⟨hconvert, a, b, c, d, e, f, htext⟩

end CssTransform
