import CssTransform.Proofs.Composition
import CssTransform.Proofs.Matrix.Action

/-!
# Compositions as maps of points

A call moves points: an offset is added to a coordinate, a factor multiplies it, an angle turns it
about an axis. Said point by point there is no matrix in it, no transposition and no order of
factors. A composition does to every point what its calls do one after the other, the first one
first.

## Which choice is load-bearing

Numbers are exact here, from any commutative ring, because rounded products are not associative: it
is associativity that turns a product of matrices into one map after the other. Nothing is asked of
the functions of angles.

## Main definitions

* `Call.pointMap?` — what a call does to a point, if it is not rejected
* `Call.act` — the same, a rejected call doing nothing

## Main results

* `Call.pointMap?_eq` — the matrix of a call acts as the call
* `apply_compose` — a composition acts as its calls in the order written
-/

namespace CssTransform

variable {α : Type} [CommRing α]

/-- A coordinate with an offset, in units of the last coordinate. A missing offset adds nothing. -/
def shifted (offset : Option α) (t w : α) : α :=
  match offset with
  | some a => t + a * w
  | none => t

/-- A coordinate multiplied by a factor. A missing factor leaves it as it is. -/
def scaled (factor : Option α) (t : α) : α :=
  match factor with
  | some a => t * a
  | none => t

theorem shifted_eq (offset : Option α) (t w : α) :
    shifted offset t w = t + offset.getD 0 * w := by
  cases offset <;> simp [shifted]

theorem scaled_eq (factor : Option α) (t : α) : scaled factor t = t * factor.getD 1 := by
  cases factor <;> simp [scaled]

/-- What a call of `matrix` does to a point, given its six arguments. -/
def planarMap? : List α → Option (Vector4 α → Vector4 α)
  | [a, b, c, d, e, f] =>
    some fun p => { p with x := a * p.x + c * p.y + e * p.w, y := b * p.x + d * p.y + f * p.w }
  | _ => none

/-- What a call of `matrix3d` does to a point, given its sixteen arguments, read row by row. -/
def spatialMap? : List α → Option (Vector4 α → Vector4 α)
  | [xx, xy, xz, xw, yx, yy, yz, yw, zx, zy, zz, zw, wx, wy, wz, ww] =>
    some fun p =>
      ⟨p.x * xx + p.y * yx + p.z * zx + p.w * wx, p.x * xy + p.y * yy + p.z * zy + p.w * wy,
        p.x * xz + p.y * yz + p.z * zz + p.w * wz, p.x * xw + p.y * yw + p.z * zw + p.w * ww⟩
  | _ => none

namespace Call

/-- What a call does to a point, for a call that does anything. -/
def pointMap? (angles : AngleFunctions α) (call : Call α) : Option (Vector4 α → Vector4 α) :=
  let angle := angles.radians ((call.arg? 0).getD 0)
  let sin := angles.sin angle
  let cos := angles.cos angle
  let tan := angles.tan angle
  let first := call.arg? 0
  let second := call.arg? 1
  let third := call.arg? 2
  match call.function? with
  | some .translateX => some fun p => { p with x := shifted first p.x p.w }
  | some .translateY => some fun p => { p with y := shifted first p.y p.w }
  | some .translateZ => some fun p => { p with z := shifted first p.z p.w }
  | some .translate =>
    some fun p => { p with x := shifted first p.x p.w, y := shifted second p.y p.w }
  | some .translate3d =>
    some fun p =>
      { p with x := shifted first p.x p.w, y := shifted second p.y p.w, z := shifted third p.z p.w }
  | some .scaleX => some fun p => { p with x := scaled first p.x }
  | some .scaleY => some fun p => { p with y := scaled first p.y }
  | some .scaleZ => some fun p => { p with z := scaled first p.z }
  | some .scale =>
    -- a single factor is used for both coordinates
    some fun p => { p with x := scaled first p.x, y := scaled (second <|> first) p.y }
  | some .scale3d =>
    some fun p => { p with x := scaled first p.x, y := scaled second p.y, z := scaled third p.z }
  | some .rotateX =>
    some fun p => { p with y := p.y * cos - p.z * sin, z := p.y * sin + p.z * cos }
  | some .rotateY =>
    some fun p => { p with x := p.x * cos + p.z * sin, z := p.z * cos - p.x * sin }
  | some .rotateZ =>
    some fun p => { p with x := p.x * cos - p.y * sin, y := p.x * sin + p.y * cos }
  | some .skewX => some fun p => { p with x := p.x + p.y * tan }
  | some .skewY => some fun p => { p with y := p.y + p.x * tan }
  | some .matrix => planarMap? call.argsOrZero
  | some .matrix3d => spatialMap? call.argsOrZero
  | none => none

theorem planarMap?_eq (call : Call α) :
    planarMap? call.argsOrZero = call.planar.toOption.map fun m p => p.apply m := by
  unfold planar
  generalize call.argsOrZero = args
  fun_cases planarMap? args with
  | case1 a b c d e f => simp [Except.toOption]
  | case2 _ hargs =>
    split
    · exact absurd rfl (hargs _ _ _ _ _ _)
    · rfl

theorem spatialMap?_eq (call : Call α) :
    spatialMap? call.argsOrZero = call.spatial.toOption.map fun m p => p.apply m := by
  unfold spatial
  generalize call.argsOrZero = args
  fun_cases spatialMap? args with
  | case1 => rfl
  | case2 _ hargs =>
    have hnone : Matrix4.ofList? args = none := by
      unfold Matrix4.ofList?
      split
      · exact absurd rfl (hargs _ _ _ _ _ _ _ _ _ _ _ _ _ _ _ _)
      · rfl
    rw [hnone]
    rfl

/-- A call acts on points as its matrix does, and the calls without a matrix are those that do not
act. -/
theorem pointMap?_eq (angles : AngleFunctions α) (call : Call α) :
    call.pointMap? angles = (call.elementary angles).toOption.map fun m p => p.apply m := by
  unfold pointMap? elementary
  cases call.function? with
  | none => rfl
  | some f =>
    cases f with
    | matrix => exact planarMap?_eq call
    | matrix3d => exact spatialMap?_eq call
    | scale =>
      -- whichever factor the second coordinate takes
      cases hsecond : call.arg? 1 <;> simp [Except.toOption, arg, scaled_eq, hsecond]
    | _ => simp [Except.toOption, arg, shifted_eq, scaled_eq]

theorem pointMap?_eq_none_iff {angles : AngleFunctions α} {call : Call α} :
    call.pointMap? angles = none ↔ ∃ e, call.elementary angles = .error e := by
  rw [pointMap?_eq, Option.map_eq_none_iff]
  cases call.elementary angles with
  | ok m => exact iff_of_false nofun nofun
  | error e => exact iff_of_true rfl ⟨e, rfl⟩

/-- What a call does to a point: a rejected one leaves it as it is. -/
def act (angles : AngleFunctions α) (p : Vector4 α) (call : Call α) : Vector4 α :=
  match call.pointMap? angles with
  | some f => f p
  | none => p

variable {angles : AngleFunctions α} {call : Call α}

theorem act_of_ok {m : Matrix4 α} (h : call.elementary angles = .ok m) (p : Vector4 α) :
    act angles p call = p.apply m := by
  rw [act, pointMap?_eq, h]
  rfl

theorem act_of_error {e : Rejection} (h : call.elementary angles = .error e) (p : Vector4 α) :
    act angles p call = p := by
  rw [act, pointMap?_eq, h]
  rfl

end Call

/-! ### Compositions -/

namespace Composition

variable {angles : AngleFunctions α} {policy : InvalidCallPolicy} {call : Call α}
  {calls : List (Call α)} {composed composed' : Matrix4 α}

/-- One more call acts behind what has been composed so far. -/
theorem apply_step (h : step angles policy composed call = .ok composed') (p : Vector4 α) :
    p.apply composed' = Call.act angles (p.apply composed) call := by
  obtain ⟨m, helementary, rfl⟩ | ⟨e, helementary, -, rfl⟩ := step_cases h
  · rw [Vector4.apply_mul, Call.act_of_ok helementary]
  · rw [Call.act_of_error helementary]

/-- Any number of calls act in the order written. -/
theorem apply_foldlM (h : calls.foldlM (step angles policy) composed = .ok composed')
    (p : Vector4 α) : p.apply composed' = calls.foldl (Call.act angles) (p.apply composed) := by
  induction calls generalizing composed with
  | nil =>
    cases h
    rfl
  | cons call calls ih =>
    obtain ⟨next, hstep, hrest⟩ := exists_of_foldlM_cons h
    rw [List.foldl_cons, ← apply_step hstep]
    exact ih hrest

end Composition

/-- **A composition acts on points as its calls do, one after the other in the order written.** The
calls that do nothing are the rejected ones. -/
theorem apply_compose (angles : AngleFunctions α) :
    (∀ call : Call α, call.pointMap? angles = none ↔ ∃ e, call.elementary angles = .error e) ∧
      ∀ calls : List (Call α), calls ≠ [] →
        ∃ m, compose angles .skip calls = .ok (some m) ∧
          ∀ p : Vector4 α, p.apply m = calls.foldl (Call.act angles) p := by
  refine ⟨fun call => Call.pointMap?_eq_none_iff, fun calls hne => ?_⟩
  refine ⟨_, compose_skip angles hne, fun p => ?_⟩
  have hact := Composition.apply_foldlM (Composition.foldlM_of_compose (compose_skip angles hne)) p
  rwa [Vector4.apply_identity] at hact

/-- A shift, a call without a matrix, and a scaling, with whole numbers. -/
theorem apply_compose_translateX :
    ([⟨"translateX".toList, [some 100]⟩, ⟨"foo".toList, []⟩, ⟨"scale".toList, [some 2]⟩] :
        List (Call ℤ)) ≠ [] ∧
      ∃ m, compose (⟨id, 0, 1, 0⟩ : AngleFunctions ℤ) .skip
          [⟨"translateX".toList, [some 100]⟩, ⟨"foo".toList, []⟩, ⟨"scale".toList, [some 2]⟩] =
            .ok (some m) ∧
        (⟨5, 7, 0, 1⟩ : Vector4 ℤ).apply m = ⟨210, 14, 0, 1⟩ := by
  refine ⟨List.cons_ne_nil _ _, ?_⟩
  obtain ⟨m, hm, hact⟩ :=
    (apply_compose (⟨id, 0, 1, 0⟩ : AngleFunctions ℤ)).2
      [⟨"translateX".toList, [some 100]⟩, ⟨"foo".toList, []⟩, ⟨"scale".toList, [some 2]⟩]
      (List.cons_ne_nil _ _)
  exact ⟨m, hm, (hact _).trans (by decide +kernel)⟩

end CssTransform
