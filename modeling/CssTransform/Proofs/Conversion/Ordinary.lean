import CssTransform.Proofs.Conversion
import CssTransform.Proofs.Numeric.Ordinary

/-!
# Calls that are converted to themselves

A call of `matrix3d` with sixteen canonical numbers of at most six places is converted to itself,
digit for digit, as long as every number is below `2 ^ 32`. Nothing is asked about the numbers
otherwise, and the policy does not matter, for the call has a matrix.

## Which choice is load-bearing

The bound is the best power of two: `4358628317.113382`, a canonical number between `2 ^ 32` and
`2 ^ 33`, is written with another last digit.

## Main results

* `exists_entries` — the numbers that canonical texts are read as
* `convert_of_isCanonicalNumber` — such a call is its own conversion
-/

namespace CssTransform

theorem Matrix4.exists_toList_eq {α : Type} {entries : List α} (h : entries.length = 16) :
    ∃ m : Matrix4 α, m.toList = entries := by
  match entries, h with
  | [xx, xy, xz, xw, yx, yy, yz, yw, zx, zy, zz, zw, wx, wy, wz, ww], _ =>
    exact ⟨⟨⟨xx, xy, xz, xw⟩, ⟨yx, yy, yz, yw⟩, ⟨zx, zy, zz, zw⟩, ⟨wx, wy, wz, ww⟩⟩, rfl⟩

/-- The numbers that canonical texts below `2 ^ 32` are read as have these texts. -/
theorem exists_entries {numbers : List (List Char)}
    (hcanonical : ∀ number ∈ numbers, IsCanonicalNumber 6 number)
    (hbelow : ∀ number ∈ numbers, ∀ numeral ∈ Numeral.leading? number,
      numeral.magnitude.IsBelow (2 ^ 32)) :
    ∃ entries : List Binary64, numbers.map Value.leadingNumber = entries.map some ∧
      (∀ x ∈ entries, x.IsProper) ∧ entries.map Binary64.entryText = numbers := by
  induction numbers with
  | nil => exact ⟨[], rfl, fun x hx => absurd hx List.not_mem_nil, rfl⟩
  | cons number numbers ih =>
    obtain ⟨entries, hread, hproper, htexts⟩ :=
      ih (fun n hn => hcanonical n (List.mem_cons_of_mem number hn))
        fun n hn => hbelow n (List.mem_cons_of_mem number hn)
    obtain ⟨x, hx, hxproper, hxtext⟩ :=
      (hcanonical number List.mem_cons_self).entryText_of_isBelow
        (hbelow number List.mem_cons_self)
    refine ⟨x :: entries, ?_, List.forall_mem_cons.2 ⟨hxproper, hproper⟩, ?_⟩
    · rw [List.map_cons, List.map_cons, hx, hread]
    · rw [List.map_cons, hxtext, htexts]

/-- **A call of `matrix3d` with sixteen canonical numbers below `2 ^ 32` is its own conversion**,
under any policy. -/
theorem convert_of_isCanonicalNumber (policy : InvalidCallPolicy) {numbers : List (List Char)}
    (hlength : numbers.length = 16)
    (hcanonical : ∀ number ∈ numbers, IsCanonicalNumber 6 number)
    (hbelow : ∀ number ∈ numbers, ∀ numeral ∈ Numeral.leading? number,
      numeral.magnitude.IsBelow (2 ^ 32)) :
    convert policy ("matrix3d(".toList ++ (", ".toList).intercalate numbers ++ [')']) =
      some ("matrix3d(".toList ++ (", ".toList).intercalate numbers ++ [')']) := by
  obtain ⟨entries, hread, hproper, rfl⟩ := exists_entries hcanonical hbelow
  rw [List.length_map] at hlength
  obtain ⟨m, rfl⟩ := Matrix4.exists_toList_eq hlength
  have hwords : ∀ word ∈ m.toList.map Binary64.entryText,
      word ≠ [] ∧ ∀ c ∈ word, Value.isWordChar c = true := by
    intro word hword
    obtain ⟨x, hx, rfl⟩ := List.mem_map.1 hword
    obtain ⟨hne, hchars⟩ := Binary64.entryText_word (hproper x hx).isFinite
    exact ⟨hne, fun c hc => Value.isWordChar_of_isNumeralChar (hchars c hc)⟩
  have hcalls := Value.calls_matrix3d hwords
  rw [hread] at hcalls
  have hfinite : m.toList.all Binary64.isFinite = true :=
    List.all_eq_true.2 fun x hx => (hproper x hx).isFinite
  rw [convert, convert?_of_calls hcalls, compose_matrix3d policy hproper]
  dsimp only
  rw [if_pos hfinite]
  rfl

/-- The least and the greatest numbers of six places below `2 ^ 32`, zero, and numbers near
`2 ^ 31`, where rounding to six places is at its coarsest. -/
theorem convert_of_isCanonicalNumber_extreme :
    let numbers := ["0.000001", "-0.000001", "0", "1", "-1", "10.01", "4294967295.999999",
      "-4294967295.999999", "2147483648.5", "2147483647.999999", "2147483648.000001", "0.1", "0.3",
      "100000", "-7.25", "4294967295"].map String.toList
    (numbers.length = 16 ∧ (∀ number ∈ numbers, IsCanonicalNumber 6 number) ∧
      ∀ number ∈ numbers, ∀ numeral ∈ Numeral.leading? number,
        numeral.magnitude.IsBelow (2 ^ 32)) ∧
      convert .skip ("matrix3d(".toList ++ (", ".toList).intercalate numbers ++ [')']) =
        some ("matrix3d(".toList ++ (", ".toList).intercalate numbers ++ [')']) := by
  intro numbers
  have hread : ∀ number ∈ numbers, ∃ x ∈ Value.leadingNumber number,
      x.isFinite = true ∧ x.entryText = number := by
    decide +kernel
  have hcanonical : ∀ number ∈ numbers, IsCanonicalNumber 6 number := by
    intro number hnumber
    obtain ⟨x, -, hfinite, htext⟩ := hread number hnumber
    exact htext ▸ Binary64.isCanonicalNumber_entryText hfinite
  have hbelow : ∀ number ∈ numbers, ∀ numeral ∈ Numeral.leading? number,
      numeral.magnitude.IsBelow (2 ^ 32) := by
    decide +kernel
  exact ⟨⟨rfl, hcanonical, hbelow⟩, convert_of_isCanonicalNumber .skip rfl hcanonical hbelow⟩

end CssTransform
