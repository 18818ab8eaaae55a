import CssTransform.Conversion
import CssTransform.Proofs.Matrix.Text

/-!
# Converting a conversion

The text that a conversion gives is a value again, a single call of `matrix3d`, and its conversion
never fails. The numbers in it were rounded once and are rounded a second time, so it is converted
to itself where no number of it is *unsteady*, and to another text where one is.

## Which choice is load-bearing

Both conversions are compared through the numbers that are read back, not through their digits. The
product with the identity, which every composition begins with, gives those numbers back because
none of them is a negative zero.

## Main results

* `convert?_text` — the conversion of the text of a matrix
* `convert?_of_convert?` — exactly the unsteady numbers keep a conversion from being final
-/

namespace CssTransform

/-- The conversion of a value that can be read, by the composition of its calls. -/
theorem convert?_of_calls {policy : InvalidCallPolicy} {value : List Char}
    {calls : List (Call Binary64)} (h : Value.calls value = .ok calls) :
    convert? policy value =
      match compose Binary64.angles policy calls with
      | .error e => .error (.rejected e)
      | .ok none => .ok none
      | .ok (some m) =>
        if m.toList.all Binary64.isFinite then .ok (some m.text) else .error .nonFinite := by
  rw [convert?, h]
  simp only [Except.mapError, bind, Except.bind]
  rcases compose Binary64.angles policy calls with e | _ | m <;> rfl

theorem convert?_of_calls_error {policy : InvalidCallPolicy} {value : List Char}
    {e : Value.ReadError} (h : Value.calls value = .error e) :
    convert? policy value = .error (.unreadable value e) := by
  rw [convert?, h]
  rfl

/-- What a conversion writes is the matrix with finite entries that the calls are composed to. -/
theorem exists_composed_of_convert? {policy : InvalidCallPolicy} {value s : List Char}
    (h : convert? policy value = .ok (some s)) :
    ∃ (calls : List (Call Binary64)) (m : Matrix4 Binary64), Value.calls value = .ok calls ∧
      compose Binary64.angles policy calls = .ok (some m) ∧
      (∀ x ∈ m.toList, x.isFinite = true) ∧ m.text = s := by
  cases hcalls : Value.calls value with
  | error e =>
    rw [convert?_of_calls_error hcalls] at h
    cases h
  | ok calls =>
    rw [convert?_of_calls hcalls] at h
    split at h
    · cases h
    · cases h
    · next m hcompose =>
      split at h
      · next hall =>
        cases h
        exact ⟨calls, m, rfl, hcompose, List.all_eq_true.1 hall, rfl⟩
      · cases h

/-- A composed matrix with finite entries is what a conversion writes. -/
theorem exists_matrix_of_convert? {policy : InvalidCallPolicy} {value s : List Char}
    (h : convert? policy value = .ok (some s)) :
    ∃ m : Matrix4 Binary64, (∀ x ∈ m.toList, x.isFinite = true) ∧ m.text = s := by
  obtain ⟨-, m, -, -, hfinite, htext⟩ := exists_composed_of_convert? h
  exact ⟨m, hfinite, htext⟩

/-- A call of `matrix3d` with the sixteen entries of a matrix has that matrix. -/
theorem Call.elementary_matrix3d (angles : AngleFunctions Binary64) (m : Matrix4 Binary64) :
    (⟨"matrix3d".toList, m.toList.map some⟩ : Call Binary64).elementary angles = .ok m := by
  have hargs : (⟨"matrix3d".toList, m.toList.map some⟩ : Call Binary64).argsOrZero = m.toList := by
    rw [argsOrZero, List.map_map]
    exact List.map_id _
  have hfunction : (⟨"matrix3d".toList, m.toList.map some⟩ : Call Binary64).function? =
      some .matrix3d := TransformFunction.ofName?_name .matrix3d
  rw [elementary, hfunction]
  dsimp only
  rw [spatial, hargs, Matrix4.ofList?_toList]

/-- A call of `matrix3d` with sixteen proper numbers composes to the matrix of these numbers. -/
theorem compose_matrix3d (policy : InvalidCallPolicy) {m : Matrix4 Binary64}
    (h : ∀ x ∈ m.toList, x.IsProper) :
    compose Binary64.angles policy [⟨"matrix3d".toList, m.toList.map some⟩] = .ok (some m) := by
  rw [compose, List.foldlM_cons,
    Composition.step_of_ok policy Matrix4.identity (Call.elementary_matrix3d Binary64.angles m),
    Matrix4.identity_mul h]
  rfl

/-- The text of a matrix is converted to the text of the matrix of the numbers written in it. -/
theorem convert?_text (policy : InvalidCallPolicy) {m : Matrix4 Binary64}
    (h : ∀ x ∈ m.toList, x.isFinite = true) :
    convert? policy m.text = .ok (some (m.map Binary64.written).text) := by
  have hproper : ∀ x ∈ (m.map Binary64.written).toList, x.IsProper := by
    intro x hx
    rw [Matrix4.toList_map] at hx
    obtain ⟨y, hy, rfl⟩ := List.mem_map.1 hx
    exact Binary64.isProper_written (h y hy)
  have hfinite : (m.map Binary64.written).toList.all Binary64.isFinite = true :=
    List.all_eq_true.2 fun x hx => (hproper x hx).isFinite
  rw [convert?_of_calls (Value.calls_text h), compose_matrix3d policy hproper]
  dsimp only
  rw [if_pos hfinite]

/-- **A conversion is converted to itself exactly where no number of it is unsteady.** Its numbers
make up one matrix, and the text of that matrix is its conversion, under any policy. -/
theorem convert?_of_convert? {p : InvalidCallPolicy} (q : InvalidCallPolicy) {value s : List Char}
    (h : convert? p value = .ok (some s)) :
    ∃ m : Matrix4 Binary64, Value.calls s = .ok [⟨"matrix3d".toList, m.toList.map some⟩] ∧
      (∀ x ∈ m.toList, x.isFinite = true) ∧ convert? q s = .ok (some m.text) ∧
      (convert? q s = .ok (some s) ↔ ∀ x ∈ m.toList, ¬x.IsUnsteady) := by
  obtain ⟨n, hn, rfl⟩ := exists_matrix_of_convert? h
  have hfinite : ∀ x ∈ (n.map Binary64.written).toList, x.isFinite = true := by
    intro x hx
    rw [Matrix4.toList_map] at hx
    obtain ⟨y, hy, rfl⟩ := List.mem_map.1 hx
    exact Binary64.isFinite_written (hn y hy)
  refine ⟨n.map Binary64.written, Value.calls_text hn, hfinite, convert?_text q hn, ?_⟩
  rw [convert?_text q hn, Except.ok.injEq, Option.some.injEq, Matrix4.text_eq_iff hfinite hn,
    Matrix4.toList_map, Matrix4.toList_map, List.map_map, List.map_inj_left, List.forall_mem_map]
  exact forall₂_congr fun x hx => Binary64.written_written_eq_iff (hn x hx)

/-- The numbers of a small shift are all steady. -/
theorem convert?_of_convert?_translateX :
    convert? .skip "translateX(2.5px)".toList =
        .ok (some "matrix3d(1, 0, 0, 0, 0, 1, 0, 0, 0, 0, 1, 0, 2.5, 0, 0, 1)".toList) ∧
      ∃ m : Matrix4 Binary64,
        Value.calls "matrix3d(1, 0, 0, 0, 0, 1, 0, 0, 0, 0, 1, 0, 2.5, 0, 0, 1)".toList =
            .ok [⟨"matrix3d".toList, m.toList.map some⟩] ∧
          (∀ x ∈ m.toList, x.isFinite = true) ∧
          convert? .abort "matrix3d(1, 0, 0, 0, 0, 1, 0, 0, 0, 0, 1, 0, 2.5, 0, 0, 1)".toList =
            .ok (some m.text) ∧
          (convert? .abort "matrix3d(1, 0, 0, 0, 0, 1, 0, 0, 0, 0, 1, 0, 2.5, 0, 0, 1)".toList =
              .ok (some "matrix3d(1, 0, 0, 0, 0, 1, 0, 0, 0, 0, 1, 0, 2.5, 0, 0, 1)".toList) ↔
            ∀ x ∈ m.toList, ¬x.IsUnsteady) :=
  have h : convert? .skip "translateX(2.5px)".toList =
      .ok (some "matrix3d(1, 0, 0, 0, 0, 1, 0, 0, 0, 0, 1, 0, 2.5, 0, 0, 1)".toList) := by
    decide +kernel
  ⟨h, convert?_of_convert? .abort h⟩

/-- The number of this shift is unsteady: every further conversion moves its last digit. -/
theorem convert?_unsteady_translateX :
    convert? .skip "translateX(4358628317.113381)".toList =
        .ok (some
          "matrix3d(1, 0, 0, 0, 0, 1, 0, 0, 0, 0, 1, 0, 4358628317.113382, 0, 0, 1)".toList) ∧
      convert? .skip
          "matrix3d(1, 0, 0, 0, 0, 1, 0, 0, 0, 0, 1, 0, 4358628317.113382, 0, 0, 1)".toList =
        .ok (some
          "matrix3d(1, 0, 0, 0, 0, 1, 0, 0, 0, 0, 1, 0, 4358628317.113383, 0, 0, 1)".toList) := by
  constructor <;> decide +kernel

end CssTransform
