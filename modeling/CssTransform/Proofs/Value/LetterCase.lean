import CssTransform.Proofs.Numeric.Grammar
import CssTransform.Proofs.Value.Balance

/-!
# The case of letters in a value

Names of functions are compared without regard to the case of ASCII letters. That is the only place
where reading asks for it, and still it holds of reading as a whole: the value in lower case is cut
into the same items, which say the same in lower case, with the same numbers for arguments, and a
value that cannot be read fails in lower case for the same cause.

## Which choice is load-bearing

Two values that differ in case are never compared with each other. Each is compared with its own
lower case, stage by stage, so that every stage is told by one equation. What makes these equations
go through is that no character class knows a letter in one case only. The mark of an exponent is
the exception, and it is known in both.

## Main definitions

* `Lexeme.foldCase`, `Item.foldCase`, `ReadError.foldCase`, `Call.foldCase` — what has been read, in
  lower case

## Main results

* `Lexeme.next?_foldCase` — the first lexeme
* `itemsOf_foldCase` — the items of a text
* `Numeral.leading?_foldCase` — a numeral is the same in both cases
* `calls_foldCase` — the calls of a value, or the failure
-/

namespace CssTransform

open TransformFunction (foldCase)

/-! ### Characters -/

/-- The ASCII letters that have a lower case. -/
def capitals : List Char := "ABCDEFGHIJKLMNOPQRSTUVWXYZ".toList

theorem toLower_of_not_mem_capitals {c : Char} (h : c ∉ capitals) : c.toLower = c := by
  have hall : ∀ n < 26, Char.ofNat (65 + n) ∈ capitals := by decide
  refine dif_neg ?_
  rintro ⟨hlow, hhigh⟩
  have hlow' : 65 ≤ c.toNat := hlow
  have hhigh' : c.toNat ≤ 90 := hhigh
  have hmem := hall (c.toNat - 65) (by omega)
  rw [Nat.add_sub_cancel' hlow', Char.ofNat_toNat] at hmem
  exact h hmem

/-- What does not tell capitals from their lower case does not depend on case. -/
theorem toLower_invariant {α : Type} {f : Char → α}
    (h : capitals.map (fun c => f c.toLower) = capitals.map f) (c : Char) :
    f c.toLower = f c := by
  by_cases hc : c ∈ capitals
  · exact List.map_inj_left.1 h c hc
  · rw [toLower_of_not_mem_capitals hc]

/-- A character that is no letter is the lower case of itself only. -/
theorem toLower_eq_iff {d : Char} (h : d ∉ capitals.map Char.toLower ∧ d ∉ capitals) {c : Char} :
    c.toLower = d ↔ c = d := by
  by_cases hc : c ∈ capitals
  · refine iff_of_false ?_ ?_
    · rintro rfl
      exact h.1 (List.mem_map_of_mem hc)
    · rintro rfl
      exact h.2 hc
  · rw [toLower_of_not_mem_capitals hc]

theorem foldCase_cons (c : Char) (text : List Char) :
    foldCase (c :: text) = c.toLower :: foldCase text := rfl

section Runs

variable {p : Char → Bool} (hp : ∀ c, p c.toLower = p c)

include hp

theorem takeWhile_foldCase (text : List Char) :
    (foldCase text).takeWhile p = foldCase (text.takeWhile p) := by
  have hcomp : p ∘ Char.toLower = p := funext hp
  rw [foldCase, List.takeWhile_map, hcomp, foldCase]

theorem dropWhile_foldCase (text : List Char) :
    (foldCase text).dropWhile p = foldCase (text.dropWhile p) := by
  have hcomp : p ∘ Char.toLower = p := funext hp
  rw [foldCase, List.dropWhile_map, hcomp, foldCase]

end Runs

theorem foldCase_foldCase (text : List Char) : foldCase (foldCase text) = foldCase text := by
  rw [foldCase, foldCase, List.map_map]
  exact List.map_congr_left fun c _ => toLower_invariant (f := Char.toLower) (by decide) c

namespace Value

theorem isSeparator_toLower (c : Char) : isSeparator c.toLower = isSeparator c :=
  toLower_invariant (by decide) c

theorem isWordChar_toLower (c : Char) : isWordChar c.toLower = isWordChar c :=
  toLower_invariant (by decide) c

theorem isNameStart_toLower (c : Char) : isNameStart c.toLower = isNameStart c :=
  toLower_invariant (by decide) c

theorem isNameChar_toLower (c : Char) : isNameChar c.toLower = isNameChar c :=
  toLower_invariant (by decide) c

theorem toLower_eq_opening {c : Char} : c.toLower = '(' ↔ c = '(' := toLower_eq_iff (by decide)

theorem toLower_eq_closing {c : Char} : c.toLower = ')' ↔ c = ')' := toLower_eq_iff (by decide)

/-! ### Lexemes -/

theorem takeName_foldCase (text : List Char) :
    takeName (foldCase text) = Prod.map foldCase foldCase (takeName text) := by
  cases text with
  | nil => rfl
  | cons c rest =>
    rw [foldCase_cons, takeName, takeName, isNameStart_toLower,
      takeWhile_foldCase isNameChar_toLower, dropWhile_foldCase isNameChar_toLower]
    split <;> rfl

/-- No parenthesis comes from another character. -/
theorem takeName_foldCase_ne_opening {text : List Char}
    (h : ∀ name opened, takeName text ≠ (name, '(' :: opened)) (name opened : List Char) :
    takeName (foldCase text) ≠ (name, '(' :: opened) := by
  intro heq
  rw [takeName_foldCase] at heq
  cases htake : takeName text with
  | mk found rest =>
    rw [htake] at heq
    cases rest with
    | nil => cases (Prod.mk.inj heq).2
    | cons d rest =>
      obtain rfl := toLower_eq_opening.1 (List.cons.inj (Prod.mk.inj heq).2).1
      exact h found rest htake

namespace Lexeme

/-- A lexeme in lower case. -/
def foldCase : Lexeme → Lexeme
  | opening name text => opening (TransformFunction.foldCase name) (TransformFunction.foldCase text)
  | closing => closing
  | word text => word (TransformFunction.foldCase text)

theorem first_foldCase (c : Char) (tail : List Char) :
    first c.toLower (TransformFunction.foldCase tail) =
      Prod.map foldCase TransformFunction.foldCase (first c tail) := by
  by_cases hc : c = ')'
  · subst hc
    rfl
  have hc' : c.toLower ≠ ')' := mt toLower_eq_closing.1 hc
  have hfold := takeName_foldCase (c :: tail)
  rw [foldCase_cons] at hfold
  by_cases hname : ∃ name opened, takeName (c :: tail) = (name, '(' :: opened)
  · obtain ⟨name, opened, hname⟩ := hname
    rw [hname] at hfold
    rw [first_of_opening hc hname, first_of_opening hc' hfold]
    rfl
  · have hnone : ∀ name opened, takeName (c :: tail) ≠ (name, '(' :: opened) :=
      fun name opened heq => hname ⟨name, opened, heq⟩
    have hnone' := takeName_foldCase_ne_opening hnone
    rw [foldCase_cons] at hnone'
    rw [first_of_word hc hnone, first_of_word hc' hnone', takeWhile_foldCase isWordChar_toLower,
      dropWhile_foldCase isWordChar_toLower]
    rfl

/-- The first lexeme of a text in lower case. -/
theorem next?_foldCase (text : List Char) :
    next? (TransformFunction.foldCase text) =
      (next? text).map (Prod.map foldCase TransformFunction.foldCase) := by
  rw [next?, next?, dropWhile_foldCase isSeparator_toLower]
  cases text.dropWhile isSeparator with
  | nil => rfl
  | cons c tail => exact congrArg some (first_foldCase c tail)

end Lexeme

/-! ### Items -/

mutual

/-- An item in lower case. -/
def Item.foldCase : Item → Item
  | .word text => .word (TransformFunction.foldCase text)
  | .group name items => .group (TransformFunction.foldCase name) (foldCaseAll items)

/-- Items in lower case. -/
def foldCaseAll : List Item → List Item
  | [] => []
  | item :: items => item.foldCase :: foldCaseAll items

end

theorem foldCaseAll_eq_map (items : List Item) : foldCaseAll items = items.map Item.foldCase := by
  induction items with
  | nil => rfl
  | cons item items ih => rw [foldCaseAll, ih, List.map_cons]

theorem upToMatch?_foldCase (count : Nat) (text : List Char) :
    upToMatch? count (foldCase text) =
      (upToMatch? count text).map (Prod.map foldCase foldCase) := by
  induction text generalizing count with
  | nil => rfl
  | cons c text ih =>
    by_cases hend : count = 0 ∧ c = ')'
    · obtain ⟨rfl, rfl⟩ := hend
      rfl
    · have hne : count = 0 → c ≠ ')' := fun hcount hc => hend ⟨hcount, hc⟩
      rw [foldCase_cons, upToMatch?_cons hne,
        upToMatch?_cons fun hcount => mt toLower_eq_closing.1 (hne hcount), ih, Option.map_map,
        Option.map_map]
      simp only [toLower_eq_opening, toLower_eq_closing]
      rfl

/-- The items of a text in lower case are those of the text in lower case. -/
theorem itemsOf_foldCase (text : List Char) :
    itemsOf (foldCase text) = (itemsOf text).map Item.foldCase := by
  generalize hn : text.length = n
  induction n using Nat.strongRecOn generalizing text with
  | ind n ih =>
    rw [itemsOf_eq, itemsOf_eq, Lexeme.next?_foldCase]
    cases hnext : Lexeme.next? text with
    | none => rfl
    | some next =>
      obtain ⟨l, rest⟩ := next
      have hlt : rest.length < n := hn ▸ Lexeme.length_of_next? hnext
      cases l with
      | closing => rfl
      | word letters => exact congrArg (Item.word (foldCase letters) :: ·) (ih _ hlt rest rfl)
      | opening name opened =>
        simp only [Option.map_some, Prod.map_apply, Lexeme.foldCase, upToMatch?_foldCase]
        cases hmatch : upToMatch? 0 rest with
        | none => rfl
        | some cut =>
          obtain ⟨inside, behind⟩ := cut
          have hlength := congrArg List.length (of_upToMatch? hmatch).1
          rw [List.length_append, List.length_cons] at hlength
          simp only [Option.map_some, Prod.map_apply, List.map_cons, Item.foldCase,
            foldCaseAll_eq_map, ih _ (by omega) inside rfl, ih _ (by omega) behind rfl]

/-! ### Failures -/

/-- A failure with what it shows of the value in lower case. -/
def ReadError.foldCase : ReadError → ReadError
  | tooDeep => tooDeep
  | unbalanced => unbalanced
  | unclosed text => unclosed (TransformFunction.foldCase text)

theorem balanceAfter_foldCase (count : Nat) (outermost text : List Char) :
    balanceAfter count (foldCase outermost) (foldCase text) =
      (balanceAfter count outermost text).mapError ReadError.foldCase := by
  induction text generalizing count outermost with
  | nil =>
    change balanceAfter count (foldCase outermost) [] = _
    rw [balanceAfter, balanceAfter]
    split <;> rfl
  | cons c text ih =>
    have houtermost : (if count = 0 then c.toLower :: foldCase text else foldCase outermost) =
        foldCase (if count = 0 then c :: text else outermost) := by
      split <;> rfl
    rw [foldCase_cons, balanceAfter, balanceAfter, houtermost]
    simp only [toLower_eq_opening, toLower_eq_closing, ih]
    split_ifs <;> rfl

theorem balance_foldCase (text : List Char) :
    balance (foldCase text) = (balance text).mapError ReadError.foldCase :=
  balanceAfter_foldCase 0 [] text

/-- A value in lower case is read as the value is read. -/
theorem read_foldCase (text : List Char) :
    read (foldCase text) =
      ((read text).map (List.map Item.foldCase)).mapError ReadError.foldCase := by
  rw [read_eq_itemsOf, read_eq_itemsOf, balance_foldCase, itemsOf_foldCase]
  cases balance text <;> rfl

end Value

/-! ### Numerals -/

namespace Numeral

theorem takeDigits_foldCase (text : List Char) :
    takeDigits (foldCase text) = ((takeDigits text).1, foldCase (takeDigits text).2) := by
  have hdigit : ∀ c : Char, c.toLower.isDigit = c.isDigit := toLower_invariant (by decide)
  have hdigits : foldCase (text.takeWhile Char.isDigit) = text.takeWhile Char.isDigit := by
    refine List.map_congr_left (fun c hc => ?_) |>.trans (List.map_id _)
    refine toLower_of_not_mem_capitals fun hmem => ?_
    have hno : ∀ c ∈ capitals, ¬c.isDigit = true := List.any_eq_false.1 (by decide)
    exact hno c hmem (Text.of_mem_takeWhile hc)
  rw [takeDigits, takeDigits, takeWhile_foldCase hdigit, dropWhile_foldCase hdigit, hdigits]

theorem takeSign_foldCase (text : List Char) :
    takeSign (foldCase text) = ((takeSign text).1, foldCase (takeSign text).2) := by
  have hminus : ∀ c : Char, c.toLower = '-' ↔ c = '-' := fun c => toLower_eq_iff (by decide)
  have hplus : ∀ c : Char, c.toLower = '+' ↔ c = '+' := fun c => toLower_eq_iff (by decide)
  cases text with
  | nil => rfl
  | cons c rest =>
    rw [foldCase_cons, takeSign_cons, takeSign_cons]
    simp only [hminus, hplus]
    split_ifs <;> rfl

theorem takeFraction_foldCase (text : List Char) :
    takeFraction (foldCase text) = ((takeFraction text).1, foldCase (takeFraction text).2) := by
  have hpoint : ∀ c : Char, c.toLower = '.' ↔ c = '.' := fun c => toLower_eq_iff (by decide)
  cases text with
  | nil => rfl
  | cons c rest =>
    rw [foldCase_cons, takeFraction_cons, takeFraction_cons]
    simp only [hpoint]
    split_ifs
    · exact takeDigits_foldCase rest
    · rfl

theorem takeDecimals_foldCase (text : List Char) :
    takeDecimals (foldCase text) = (takeDecimals text).map (Prod.map id foldCase) := by
  rw [takeDecimals_eq, takeDecimals_eq, takeDigits_foldCase]
  dsimp only
  rw [takeFraction_foldCase]
  split_ifs <;> rfl

theorem leadingExponent_foldCase (text : List Char) :
    leadingExponent (foldCase text) = leadingExponent text := by
  have hmark : ∀ c : Char,
      decide (c.toLower = 'e' ∨ c.toLower = 'E') = decide (c = 'e' ∨ c = 'E') :=
    toLower_invariant (f := fun c => decide (c = 'e' ∨ c = 'E')) (by decide)
  cases text with
  | nil => rfl
  | cons c rest =>
    rw [foldCase_cons, leadingExponent, leadingExponent]
    simp only [decide_eq_decide.1 (hmark c), takeSign_foldCase, takeDigits_foldCase]

/-- The numeral at the front of a text is the same in lower case. -/
theorem leading?_foldCase (text : List Char) : leading? (foldCase text) = leading? text := by
  rw [leading?, leading?, takeSign_foldCase]
  simp only [takeDecimals_foldCase, Option.map_map]
  refine congrArg (Option.map · _) (funext fun parts => ?_)
  simp [leadingExponent_foldCase]

end Numeral

/-! ### Calls -/

/-- A call with its name in lower case. -/
def Call.foldCase {α : Type} (call : Call α) : Call α :=
  ⟨TransformFunction.foldCase call.name, call.args⟩

namespace Value

theorem Item.argument_foldCase (item : Item) : item.foldCase.argument = item.argument := by
  cases item with
  | word text => exact congrArg (Option.map Numeral.toBinary64) (Numeral.leading?_foldCase text)
  | group name items => rfl

theorem Item.call?_foldCase (item : Item) :
    item.foldCase.call? = item.call?.map Call.foldCase := by
  cases item with
  | word text => rfl
  | group name items =>
    have hargs : (foldCaseAll items).map Item.argument = items.map Item.argument := by
      rw [foldCaseAll_eq_map, List.map_map]
      exact List.map_congr_left fun inner _ => inner.argument_foldCase
    change some (Call.mk (TransformFunction.foldCase name) _) = some (Call.mk _ _)
    rw [hargs]

/-- **The calls of a value in lower case** are those of the value, up to the case of their names. A
value that cannot be read cannot be read in lower case, for the same cause. -/
theorem calls_foldCase (text : List Char) :
    calls (foldCase text) =
      ((calls text).map (List.map Call.foldCase)).mapError ReadError.foldCase := by
  rw [calls, calls, read_foldCase]
  cases read text with
  | error e => rfl
  | ok items =>
    refine congrArg Except.ok ?_
    rw [List.filterMap_map, List.map_filterMap]
    exact List.filterMap_congr fun item _ => item.call?_foldCase

end Value

end CssTransform
