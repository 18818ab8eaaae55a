import CssTransform.Proofs.Matrix.Text
import CssTransform.Proofs.Stylesheet.Scanned

/-!
# The text of a matrix in a style sheet

In a sheet the text of a matrix is one block: the name `matrix3d` with its bracket, numbers, commas
and spaces, and the closing bracket. It is cut into these tokens whatever follows it.

## Main definitions

* `IsNumeral` — a sign, digits and perhaps a point with digits

## Main results

* `Stylesheet.begins_numeral` — a numeral before a comma or the closing bracket is one token
* `Matrix4.exists_tokens` — the tokens of the text of a matrix
-/

namespace CssTransform

open Numeral (IsDigits)
open Binary64 (signText)

/-! ### Numerals -/

/-- A sign, digits and perhaps a point with digits. -/
inductive IsNumeral : List Char → Prop
  | mk {negative : Bool} {whole fraction : List Char} (hwhole : IsDigits whole)
      (hfraction : IsDigits fraction) (hne : whole ≠ []) :
      IsNumeral (signText negative ++ (whole ++ if fraction = [] then [] else '.' :: fraction))

/-- The text of an entry is a numeral. -/
theorem Binary64.isNumeral_entryText {x : Binary64} (hx : x.isFinite = true) :
    IsNumeral x.entryText := by
  have hwritten := isFinite_written hx
  rw [entryText_eq]
  cases hvalue : x.written with
  | nan => simp [hvalue] at hwritten
  | infinite negative => simp [hvalue] at hwritten
  | finite negative m =>
    rw [plainText, Magnitude.plainText]
    split
    · exact @IsNumeral.mk negative ['0'] [] (Numeral.isDigits_replicate_zero 1)
        (fun c hc => absurd hc List.not_mem_nil) (List.cons_ne_nil _ _)
    · obtain ⟨whole, fraction, hw, hf, hne, htext, -, -⟩ := m.shortest.plainText_spec
      rw [htext]
      exact .mk hw hf hne

namespace Stylesheet

open Token

/-! ### Tokens of a numeral -/

section Numeral

variable {d : Char} {after : List Char}

theorem digitsLength_digits {digits : List Char} (h : IsDigits digits)
    (hafter : ∀ c ∈ after.head?, c.isDigit = false) :
    digitsLength (digits ++ after) = digits.length := by
  have hstop : after.takeWhile Char.isDigit = [] := by
    cases after with
    | nil => rfl
    | cons c after => exact List.takeWhile_cons_of_neg (by simp [hafter c rfl])
  rw [digitsLength, List.takeWhile_append_of_pos h, hstop, List.append_nil]

theorem signLength_signText (negative : Bool) {whole : List Char} (hwhole : IsDigits whole)
    (hne : whole ≠ []) (after : List Char) :
    signLength (signText negative ++ (whole ++ after)) = (signText negative).length := by
  cases negative with
  | true => rfl
  | false =>
    obtain ⟨c, whole, rfl⟩ := List.exists_cons_of_ne_nil hne
    have hc := hwhole c List.mem_cons_self
    have hsign : ¬(c = '+' ∨ c = '-') := by
      rintro (rfl | rfl) <;> exact absurd hc (by decide)
    show signLength (c :: (whole ++ after)) = 0
    rw [signLength, if_neg hsign]

theorem fractionLength_fraction {fraction : List Char} (h : IsDigits fraction)
    (hd : d = ',' ∨ d = ')') (after : List Char) :
    fractionLength ((if fraction = [] then [] else '.' :: fraction) ++ d :: after) =
      (if fraction = [] then [] else '.' :: fraction).length := by
  split
  · rcases hd with rfl | rfl <;> rfl
  · next hne =>
    obtain ⟨c, fraction, rfl⟩ := List.exists_cons_of_ne_nil hne
    have hstarts : startsFraction ('.' :: (c :: fraction) ++ d :: after) = true :=
      h c List.mem_cons_self
    have hstop : ∀ e ∈ (d :: after).head?, e.isDigit = false := by
      intro e he
      obtain rfl := Option.some.inj he
      rcases hd with rfl | rfl <;> decide
    rw [fractionLength, if_pos hstarts, List.cons_append, List.drop_one, List.tail_cons,
      digitsLength_digits h hstop]
    rfl

/-- The number ends where the digits do. -/
theorem numberLength_numeral {word : List Char} (h : IsNumeral word) (hd : d = ',' ∨ d = ')')
    (after : List Char) : numberLength (word ++ d :: after) = word.length := by
  cases h with
  | @mk negative whole fraction hwhole hfraction hne =>
    generalize hrest : (if fraction = [] then [] else '.' :: fraction) = rest
    have hfractionLength := fractionLength_fraction hfraction hd after
    rw [hrest] at hfractionLength
    have hstop : ∀ c ∈ (rest ++ d :: after).head?, c.isDigit = false := by
      intro c hc
      rw [← hrest] at hc
      split at hc
      · obtain rfl := Option.some.inj hc
        rcases hd with rfl | rfl <;> decide
      · obtain rfl := Option.some.inj hc
        decide
    have hsign := signLength_signText negative hwhole hne (rest ++ d :: after)
    have hdigits := digitsLength_digits hwhole hstop
    have hexponent : exponentLength (d :: after) = 0 := by
      rw [exponentLength, if_neg]
      rintro ⟨rfl | rfl, -⟩ <;> simp at hd
    have hunit : unitLength (d :: after) = 0 := by
      rcases hd with rfl | rfl <;> rfl
    have hdrop : ∀ s t : List Char, (s ++ t).drop s.length = t := fun s t => List.drop_left
    have hscaled : scaledLength (signText negative ++ (whole ++ (rest ++ d :: after))) =
        (signText negative ++ (whole ++ rest)).length := by
      rw [scaledLength]
      simp only [hsign, hdrop, hdigits]
      rw [← List.length_append, ← List.append_assoc, hdrop, hfractionLength, ← List.length_append,
        ← List.append_assoc, hdrop, hexponent]
      simp
    rw [List.append_assoc, List.append_assoc, numberLength_eq, hscaled,
      show signText negative ++ (whole ++ (rest ++ d :: after)) =
        (signText negative ++ (whole ++ rest)) ++ d :: after by simp, hdrop, hunit]
    rfl

/-- A numeral begins a number. -/
theorem exists_numeral_cons {word : List Char} (h : IsNumeral word) (after : List Char) :
    ∃ c r, word = c :: r ∧ (c = '-' ∨ c.isDigit = true) ∧
      startsNumber (c :: (r ++ after)) = true := by
  cases h with
  | @mk negative whole fraction hwhole hfraction hne =>
    obtain ⟨c, whole, rfl⟩ := List.exists_cons_of_ne_nil hne
    have hc := hwhole c List.mem_cons_self
    cases negative with
    | true =>
      refine ⟨'-', _, rfl, .inl rfl, ?_⟩
      rw [startsNumber, if_pos (.inr rfl), Bool.or_eq_true]
      exact .inl hc
    | false =>
      refine ⟨c, _, rfl, .inr hc, ?_⟩
      have hsign : ¬(c = '+' ∨ c = '-') := by
        rintro (rfl | rfl) <;> exact absurd hc (by decide)
      rw [startsNumber, if_neg hsign, Bool.or_eq_true]
      exact .inl hc

theorem isBlank_of_numeral {c : Char} (h : c = '-' ∨ c.isDigit = true) :
    isBlank c = false ∧ ¬(c = '"' ∨ c = '\'') := by
  rcases h with rfl | h
  · decide
  · have hne : ∀ e : Char, e.isDigit = false → c ≠ e := by
      rintro e he rfl
      exact absurd h (by simp [he])
    refine ⟨?_, fun hquote => hquote.elim (hne _ (by decide)) (hne _ (by decide))⟩
    simp [isBlank, isLineEnd, hne ' ' (by decide), hne '\t' (by decide), hne '\n' (by decide),
      hne '\r' (by decide), hne '\x0c' (by decide)]

/-- A numeral before a comma or a closing bracket is one token. -/
theorem begins_numeral {word : List Char} (h : IsNumeral word) (hd : d = ',' ∨ d = ')')
    (after : List Char) : Begins ⟨.number, word⟩ (d :: after) := by
  obtain ⟨c, r, rfl, hc, hstarts⟩ := exists_numeral_cons h (d :: after)
  obtain ⟨hblank, hquote⟩ := isBlank_of_numeral hc
  have hlength := numberLength_numeral h hd after
  have hscan : scan c (r ++ d :: after) = (.number, r.length + 1) := by
    rw [scan, hblank, if_neg (by decide), if_neg hquote, if_pos hstarts, ← List.cons_append,
      hlength]
    rfl
  constructor
  · rw [hscan]
  · rw [hscan, Nat.add_sub_cancel, List.drop_left]

end Numeral

/-! ### Tokens of a call -/

/-- The token that opens the text of a matrix. -/
def matrixOpener : Token := ⟨.function "matrix3d".toList, "matrix3d(".toList⟩

theorem begins_matrixOpener (after : List Char) : matrixOpener.Begins after := by
  have hscan : scan 'm' ("atrix3d(".toList ++ after) =
      (.function "matrix3d".toList, "atrix3d(".toList.length + 1) := rfl
  have htoken : matrixOpener = ⟨.function "matrix3d".toList, 'm' :: "atrix3d(".toList⟩ := rfl
  rw [htoken]
  constructor
  · rw [hscan]
  · rw [hscan, Nat.add_sub_cancel, List.drop_left]

theorem begins_closing (after : List Char) : Begins ⟨.closing .round, [')']⟩ after := .mk rfl rfl

theorem begins_comma (after : List Char) : Begins ⟨.delim ',', [',']⟩ after := .mk rfl rfl

/-- The tokens of numerals with commas and spaces between them. -/
def argumentTokens : List (List Char) → List Token
  | [] => []
  | [word] => [⟨.number, word⟩]
  | word :: next :: words =>
    ⟨.number, word⟩ :: ⟨.delim ',', [',']⟩ :: ⟨.space, [' ']⟩ :: argumentTokens (next :: words)

theorem textOf_argumentTokens (words : List (List Char)) :
    textOf (argumentTokens words) = (", ".toList).intercalate words := by
  induction words with
  | nil => rfl
  | cons word words ih =>
    cases words with
    | nil => simp [argumentTokens]
    | cons next words =>
      rw [argumentTokens, textOf_cons, textOf_cons, textOf_cons, ih, List.intercalate_cons_cons,
        List.append_assoc]
      rfl

theorem balanced_argumentTokens (b : Bracket) (words : List (List Char)) :
    Balanced b (argumentTokens words) := by
  induction words with
  | nil => exact .nil
  | cons word words ih =>
    have hnumber : ∀ {ts}, Balanced b ts → Balanced b (⟨.number, word⟩ :: ts) := fun hts =>
      .token rfl (fun h => by cases h) hts
    cases words with
    | nil => exact hnumber .nil
    | cons next words =>
      exact hnumber (.token rfl (fun h => by cases h) (.token rfl (fun h => by cases h) ih))

/-- A space before a numeral is one token. -/
theorem begins_space {word : List Char} (h : IsNumeral word) (after : List Char) :
    Begins ⟨.space, [' ']⟩ (word ++ after) := by
  obtain ⟨c, r, rfl, hc, -⟩ := exists_numeral_cons h after
  have hstop : (c :: r ++ after).takeWhile isBlank = [] :=
    List.takeWhile_cons_of_neg (by simp [(isBlank_of_numeral hc).1])
  constructor
  · rw [scan_blank (by decide)]
  · rw [scan_blank (by decide), List.nil_append, hstop]
    rfl

theorem scanned_argumentTokens {words : List (List Char)} (h : ∀ word ∈ words, IsNumeral word)
    (after : List Char) : Scanned (argumentTokens words) (')' :: after) := by
  induction words with
  | nil => exact .nil
  | cons word words ih =>
    have hword := h word List.mem_cons_self
    have hrest := ih fun w hw => h w (List.mem_cons_of_mem word hw)
    cases words with
    | nil => exact .cons (begins_numeral hword (.inr rfl) after) .nil
    | cons next words =>
      have hnext := h next (List.mem_cons_of_mem word List.mem_cons_self)
      obtain ⟨rest, hrestText⟩ :
          ∃ rest, textOf (argumentTokens (next :: words)) = next ++ rest := by
        cases words with
        | nil => exact ⟨[], rfl⟩
        | cons word' words => exact ⟨_, rfl⟩
      refine .cons (begins_numeral hword (.inl rfl) _) (.cons (begins_comma _) (.cons ?_ hrest))
      rw [hrestText, List.append_assoc]
      exact begins_space hnext _

end Stylesheet

open Stylesheet

/-- **The tokens of the text of a matrix** are a whole block, whatever follows it. -/
theorem Matrix4.exists_tokens {m : Matrix4 Binary64} (h : ∀ x ∈ m.toList, x.isFinite = true) :
    ∃ inside, textOf (matrixOpener :: (inside ++ [⟨.closing .round, [')']⟩])) = m.text ∧
      Balanced .round inside ∧
      ∀ after, Scanned (matrixOpener :: (inside ++ [⟨.closing .round, [')']⟩])) after := by
  have hwords : ∀ word ∈ m.toList.map Binary64.entryText, IsNumeral word := by
    intro word hword
    obtain ⟨x, hx, rfl⟩ := List.mem_map.1 hword
    exact Binary64.isNumeral_entryText (h x hx)
  refine ⟨argumentTokens (m.toList.map Binary64.entryText), ?_, balanced_argumentTokens _ _,
    fun after => .cons (begins_matrixOpener _) (.append ?_ (.cons (begins_closing _) .nil))⟩
  · rw [textOf_cons, textOf_append, textOf_argumentTokens]
    rfl
  · exact scanned_argumentTokens hwords after

end CssTransform
