import CssTransform.Proofs.Matrix.Identity
import CssTransform.Proofs.Numeric.PlainText
import CssTransform.Proofs.Value.Scan

/-!
# The text of a matrix is one call

Read as a value, the text of a matrix is a single call of `matrix3d` whose sixteen arguments are the
numbers that were written, so nothing of a written matrix is lost in its text.

## Main definitions

* `IsNumeralChar` — the characters that written numbers are made of

## Main results

* `Value.calls_text` — the calls of the text of a matrix
* `Matrix4.text_eq_iff` — two texts are the same when the same numbers are written
-/

namespace CssTransform

/-! ### Words -/

/-- A character that the text of a finite number may hold. -/
def IsNumeralChar (c : Char) : Prop := c.isDigit = true ∨ c = '-' ∨ c = '.'

open Numeral

theorem Numeral.IsDigits.isNumeralChar {text : List Char} (h : IsDigits text) :
    ∀ c ∈ text, IsNumeralChar c := fun c hc => Or.inl (h c hc)

theorem Decimal.isNumeralChar_plainText (d : Decimal) : ∀ c ∈ d.plainText, IsNumeralChar c := by
  obtain ⟨whole, fraction, hw, hf, -, htext, -, -⟩ := d.plainText_spec
  intro c hc
  rw [htext] at hc
  rcases List.mem_append.1 hc with hc | hc
  · exact hw.isNumeralChar c hc
  · split at hc
    · simp at hc
    · rcases List.mem_cons.1 hc with rfl | hc
      · exact Or.inr (Or.inr rfl)
      · exact hf.isNumeralChar c hc

theorem Decimal.plainText_ne_nil (d : Decimal) : d.plainText ≠ [] := by
  obtain ⟨whole, fraction, -, -, hne, htext, -, -⟩ := d.plainText_spec
  simp [htext, hne]

theorem Binary64.plainText_word {x : Binary64} (hx : x.isFinite = true) :
    x.plainText ≠ [] ∧ ∀ c ∈ x.plainText, IsNumeralChar c := by
  cases x with
  | nan => simp at hx
  | infinite negative => simp at hx
  | finite negative m =>
    have hsign : ∀ c ∈ signText negative, IsNumeralChar c := by
      cases negative <;> simp [signText, IsNumeralChar]
    rw [plainText, Magnitude.plainText]
    split
    · refine ⟨by simp, fun c hc => (List.mem_append.1 hc).elim (hsign c) fun hc => ?_⟩
      exact (isDigits_replicate_zero 1).isNumeralChar c hc
    · exact ⟨by simp [Decimal.plainText_ne_nil],
        fun c hc => (List.mem_append.1 hc).elim (hsign c) (Decimal.isNumeralChar_plainText _ c)⟩

theorem Binary64.isFinite_written {x : Binary64} (hx : x.isFinite = true) :
    x.written.isFinite = true := (isProper_written hx).isFinite

theorem Binary64.entryText_word {x : Binary64} (hx : x.isFinite = true) :
    x.entryText ≠ [] ∧ ∀ c ∈ x.entryText, IsNumeralChar c := by
  rw [entryText_eq]
  exact plainText_word (isFinite_written hx)

theorem Value.leadingNumber_entryText {x : Binary64} (hx : x.isFinite = true) :
    leadingNumber x.entryText = some x.written := by
  rw [Binary64.entryText_eq]
  exact leadingNumber_plainText (Binary64.isFinite_written hx)

/-! ### Lexemes -/

namespace Value

theorem isWordChar_of_isNumeralChar {c : Char} (h : IsNumeralChar c) : isWordChar c = true := by
  rcases h with h | rfl | rfl
  · have hrange : 48 ≤ c.toNat ∧ c.toNat ≤ 57 := Char.isDigit_iff_toNat.1 h
    have hne : ∀ d : Char, (d.toNat < 48 ∨ 57 < d.toNat) → (c == d) = false := by
      intro d hd
      rw [beq_eq_false_iff_ne]
      rintro rfl
      omega
    have hblank : Text.isBlank c = false := by
      simp only [Text.isBlank, Text.blankRanges, CodeRanges.contains_cons, CodeRanges.contains_nil,
        Bool.or_false, Bool.or_eq_false_iff, Bool.and_eq_false_iff, decide_eq_false_iff_not]
      omega
    rw [isWordChar, isSeparator, hblank, hne ',' (by decide), hne '/' (by decide), bne,
      hne '(' (by decide), bne, hne ')' (by decide)]
    rfl
  · decide
  · decide

namespace Lexeme

open Text (takeWhile_append_cons_of_neg dropWhile_append_cons_of_neg)

theorem next?_cons_of_isSeparator {c : Char} (h : isSeparator c = true) (rest : List Char) :
    next? (c :: rest) = next? rest := by
  rw [next?, List.dropWhile_cons_of_pos h]
  rfl

theorem all_cons_of_isSeparator {c : Char} (h : isSeparator c = true) (rest : List Char) :
    all (c :: rest) = all rest := by
  rw [all_eq, all_eq rest, next?_cons_of_isSeparator h]

theorem all_closing (rest : List Char) : all (')' :: rest) = closing :: all rest :=
  all_of_next? rfl

/-- A run of word characters that ends before a comma or a closing parenthesis is a word. -/
theorem all_word {word : List Char} (hne : word ≠ []) (hword : ∀ c ∈ word, isWordChar c = true)
    {d : Char} (hd : d = ',' ∨ d = ')') (rest : List Char) :
    all (word ++ d :: rest) = .word word :: all (d :: rest) := by
  obtain ⟨c, tail, rfl⟩ := List.exists_cons_of_ne_nil hne
  have hplain : ∀ e ∈ c :: tail, IsPlain e := fun e he => isPlain_of_isWordChar (hword e he)
  have hdname : isNameChar d = false := by rcases hd with rfl | rfl <;> decide
  have hdword : isWordChar d = false := by rcases hd with rfl | rfl <;> decide
  have hdopen : d ≠ '(' := by rcases hd with rfl | rfl <;> decide
  have hsep : isSeparator c = false := by
    have hc := hword c List.mem_cons_self
    simp only [isWordChar, Bool.and_eq_true, Bool.not_eq_true'] at hc
    exact hc.1.1
  have htail : tail.takeWhile isWordChar = tail ∧ tail.dropWhile isWordChar = [] := by
    have hall : ∀ e ∈ tail, isWordChar e = true := fun e he => hword e (List.mem_cons_of_mem c he)
    exact ⟨List.takeWhile_eq_self_iff.2 hall, List.dropWhile_eq_nil_iff.2 hall⟩
  have hname := takeName_append_ne_opening hdname hdopen
    (takeName_ne_opening fun e he => (hplain e he).1) rest
  have hdrop : (c :: (tail ++ d :: rest)).dropWhile isSeparator = c :: (tail ++ d :: rest) :=
    List.dropWhile_cons_of_neg (by simp [hsep])
  rw [List.cons_append, all_of_word hdrop (hplain c List.mem_cons_self).2 hname,
    takeWhile_append_cons_of_neg hdword, dropWhile_append_cons_of_neg hdword, htail.1, htail.2]
  rfl

/-- Words with commas between them and a closing parenthesis at the end. -/
theorem all_words {words : List (List Char)}
    (h : ∀ word ∈ words, word ≠ [] ∧ ∀ c ∈ word, isWordChar c = true) :
    all ((", ".toList).intercalate words ++ [')']) = words.map .word ++ [closing] := by
  have hnil : all [] = [] := by rw [all_eq]; rfl
  have hclose : all [')'] = [closing] := by rw [all_closing, hnil]
  induction words with
  | nil => exact hclose
  | cons word words ih =>
    obtain ⟨hne, hword⟩ := h word List.mem_cons_self
    cases words with
    | nil =>
      rw [List.intercalate_singleton, all_word hne hword (Or.inr rfl), hclose]
      rfl
    | cons next words =>
      have hrest := ih fun w hw => h w (List.mem_cons_of_mem word hw)
      rw [List.intercalate_cons_cons, List.append_assoc, List.append_assoc,
        show ", ".toList = [',', ' '] from rfl, List.cons_append,
        all_word hne hword (Or.inl rfl), all_cons_of_isSeparator (by decide),
        List.cons_append, all_cons_of_isSeparator (by decide), List.nil_append]
      exact congrArg (Lexeme.word word :: ·) hrest

end Lexeme

/-! ### The call -/

theorem scanAfter_words (groups : List OpenGroup) (found : List Item) (words : List (List Char))
    (rest : List Lexeme) :
    scanAfter groups found (words.map .word ++ rest) =
      scanAfter groups ((words.map .word).reverse ++ found) rest := by
  induction words generalizing found with
  | nil => rfl
  | cons word words ih =>
    rw [List.map_cons, List.cons_append, scanAfter, ih]
    simp

theorem all_matrix3d (rest : List Char) :
    Lexeme.all ("matrix3d(".toList ++ rest) =
      .opening "matrix3d".toList ('(' :: rest) :: Lexeme.all rest :=
  Lexeme.all_of_next? rfl

/-- A call of `matrix3d` with words as arguments. -/
theorem calls_matrix3d {words : List (List Char)}
    (h : ∀ word ∈ words, word ≠ [] ∧ ∀ c ∈ word, isWordChar c = true) :
    calls ("matrix3d(".toList ++ (", ".toList).intercalate words ++ [')']) =
      .ok [⟨"matrix3d".toList, words.map leadingNumber⟩] := by
  rw [calls, read_eq_scan, scan, List.append_assoc, all_matrix3d, Lexeme.all_words h, scanAfter,
    if_pos (by decide), scanAfter_words, scanAfter, scanAfter]
  simp only [Except.map, List.filterMap, Item.call?, List.append_nil, List.reverse_reverse,
    List.map_map, List.reverse_cons, List.reverse_nil, List.nil_append]
  rfl

/-- The text of a matrix is one call, and its arguments are the numbers that were written. -/
theorem calls_text {m : Matrix4 Binary64} (h : ∀ x ∈ m.toList, x.isFinite = true) :
    calls m.text = .ok [⟨"matrix3d".toList, (m.map Binary64.written).toList.map some⟩] := by
  have hwords : ∀ word ∈ m.toList.map Binary64.entryText,
      word ≠ [] ∧ ∀ c ∈ word, isWordChar c = true := by
    intro word hword
    obtain ⟨x, hx, rfl⟩ := List.mem_map.1 hword
    obtain ⟨hne, hchars⟩ := Binary64.entryText_word (h x hx)
    exact ⟨hne, fun c hc => isWordChar_of_isNumeralChar (hchars c hc)⟩
  have hnumbers : (m.toList.map Binary64.entryText).map leadingNumber =
      (m.map Binary64.written).toList.map some := by
    rw [Matrix4.toList_map, List.map_map, List.map_map]
    exact List.map_congr_left fun x hx => leadingNumber_entryText (h x hx)
  unfold Matrix4.text
  rw [calls_matrix3d hwords, hnumbers]

end Value

/-- Two matrices have the same text when the same numbers are written for their entries. -/
theorem Matrix4.text_eq_iff {m n : Matrix4 Binary64} (hm : ∀ x ∈ m.toList, x.isFinite = true)
    (hn : ∀ x ∈ n.toList, x.isFinite = true) :
    m.text = n.text ↔ (m.map Binary64.written).toList = (n.map Binary64.written).toList := by
  constructor
  · intro h
    have hcalls := Value.calls_text hm
    rw [h, Value.calls_text hn] at hcalls
    simp only [Except.ok.injEq, List.cons.injEq, Call.mk.injEq, and_true, true_and] at hcalls
    exact ((List.map_inj_right fun _ _ => Option.some.inj).1 hcalls).symm
  · intro h
    have hentry : Binary64.entryText = Binary64.plainText ∘ Binary64.written :=
      funext Binary64.entryText_eq
    have htexts : m.toList.map Binary64.entryText = n.toList.map Binary64.entryText := by
      rw [hentry, ← List.map_map, ← List.map_map, ← Matrix4.toList_map, h, Matrix4.toList_map]
    unfold Matrix4.text
    rw [htexts]

end CssTransform
