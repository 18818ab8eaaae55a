import CssTransform.Proofs.Text.Run
import CssTransform.Value.Grammar

/-!
# Lexemes of a transform value

A value can be cut into words, openings and closings without a look back. An opening is a
parenthesis together with the name right before it, which may be empty. The lexemes of a text are
the first one and the lexemes of what it leaves. What it leaves, and the text that it takes, are
told here once for each kind of lexeme.

## Which choice is load-bearing

At each place a *name* is tried before a word, and counts only if a parenthesis follows it at once.
Whether that parenthesis is ever closed is not asked.

## Main definitions

* `Lexeme`
* `Lexeme.next?` — the first lexeme of a text, and the text after it
* `Lexeme.all` — the lexemes of a text

## Main results

* `Lexeme.length_of_next?` — every lexeme takes at least one character
* `Lexeme.all_eq` — the lexemes of a text, by its first lexeme
* `Lexeme.next?_cases` — how a text begins, by its first lexeme
-/

namespace CssTransform

namespace Value

open Text (of_mem_takeWhile takeWhile_append_cons_of_neg dropWhile_append_cons_of_neg)

/-! ### Characters that are no parenthesis -/

/-- A character that opens and closes nothing. -/
def IsPlain (c : Char) : Prop := c ≠ '(' ∧ c ≠ ')'

theorem isPlain_of_isSeparator {c : Char} (h : isSeparator c = true) : IsPlain c := by
  constructor <;> rintro rfl <;> exact absurd h (by decide)

theorem isPlain_of_isWordChar {c : Char} (h : isWordChar c = true) : IsPlain c := by
  simp only [isWordChar, Bool.and_eq_true, bne_iff_ne, ne_eq] at h
  exact ⟨h.1.2, h.2⟩

theorem isPlain_of_isNameStart {c : Char} (h : isNameStart c = true) : IsPlain c := by
  constructor <;> rintro rfl <;> exact absurd h (by decide)

theorem isPlain_of_isNameChar {c : Char} (h : isNameChar c = true) : IsPlain c := by
  constructor <;> rintro rfl <;> exact absurd h (by decide)

theorem isPlain_of_mem_takeName {text : List Char} {c : Char} (h : c ∈ (takeName text).1) :
    IsPlain c := by
  simp only [takeName] at h
  split at h
  · simp at h
  · next d rest =>
    split at h
    · next hd =>
      rcases List.mem_cons.1 h with rfl | h
      · exact isPlain_of_isNameStart hd
      · exact isPlain_of_isNameChar (of_mem_takeWhile h)
    · simp at h

/-- No name goes over a character that may not stand in one. -/
theorem takeName_append_cons_of_neg {d : Char} (hd : isNameChar d = false)
    (text rest : List Char) :
    takeName (text ++ d :: rest) = ((takeName text).1, (takeName text).2 ++ d :: rest) := by
  have hstart : isNameStart d = false := by
    rw [isNameChar, Bool.or_eq_false_iff] at hd
    exact hd.1
  cases text with
  | nil => simp [takeName, hstart]
  | cons c tail =>
    rw [List.cons_append, takeName, takeName]
    split
    · rw [takeWhile_append_cons_of_neg hd, dropWhile_append_cons_of_neg hd]
    · rfl

/-- A name that a parenthesis follows has it in its own text. -/
theorem takeName_append_ne_opening {text : List Char} {d : Char} (hd : isNameChar d = false)
    (hopen : d ≠ '(') (h : ∀ name opened, takeName text ≠ (name, '(' :: opened))
    (rest name opened : List Char) : takeName (text ++ d :: rest) ≠ (name, '(' :: opened) := by
  intro heq
  rw [takeName_append_cons_of_neg hd] at heq
  cases hrest : (takeName text).2 with
  | nil =>
    rw [hrest] at heq
    exact hopen (List.cons.inj (Prod.mk.inj heq).2).1
  | cons e opened' =>
    rw [hrest] at heq
    obtain rfl : e = '(' := (List.cons.inj (Prod.mk.inj heq).2).1
    exact h _ opened' (by rw [← hrest])

/-- A name with a parenthesis behind it does not depend on what follows the parenthesis. -/
theorem takeName_append_of_opening {text name opened : List Char}
    (h : takeName text = (name, '(' :: opened)) (rest : List Char) :
    takeName (text ++ rest) = (name, '(' :: (opened ++ rest)) := by
  have happend := takeName_append text
  rw [h] at happend
  dsimp only at happend
  have hcut := takeName_append_cons_of_neg (d := '(') (by decide) name opened
  rw [happend, h, Prod.mk.injEq] at hcut
  obtain ⟨hname, hrest⟩ := hcut
  have hnil : (takeName name).2 = [] := by simpa using hrest.symm
  rw [← happend, List.append_assoc, List.cons_append,
    takeName_append_cons_of_neg (by decide), ← hname, hnil]
  rfl

/-- No parenthesis follows a name in a text that has none. -/
theorem takeName_ne_opening {text : List Char} (h : ∀ c ∈ text, c ≠ '(')
    (name opened : List Char) : takeName text ≠ (name, '(' :: opened) := by
  intro heq
  have happend := takeName_append text
  rw [heq] at happend
  exact h '(' (by rw [← happend]; simp) rfl

/-! ### Lexemes -/

/-- A piece of a transform value. -/
inductive Lexeme where
  /-- A name and a parenthesis. What is kept besides the name is the text from the parenthesis on,
  for a message about it. -/
  | opening (name from_ : List Char)
  | closing
  | word (text : List Char)
deriving DecidableEq

namespace Lexeme

/-- The lexeme that a text without a separator in front begins with, and the text after it. -/
def first (c : Char) (rest : List Char) : Lexeme × List Char :=
  if c = ')' then (closing, rest)
  else
    match takeName (c :: rest) with
    | (name, '(' :: inside) => (opening name ('(' :: inside), inside)
    | _ => (word (c :: rest.takeWhile isWordChar), rest.dropWhile isWordChar)

/-- The first lexeme of a text and the text after it. -/
def next? (text : List Char) : Option (Lexeme × List Char) :=
  match text.dropWhile isSeparator with
  | [] => none
  | c :: rest => some (first c rest)

theorem length_first (c : Char) (rest : List Char) :
    (first c rest).2.length ≤ rest.length := by
  have htake := congrArg List.length (takeName_append (c :: rest))
  simp only [first]
  split
  · exact Nat.le_refl _
  · split
    · next name inside heq =>
      rw [heq] at htake
      simp at htake ⊢
      omega
    · exact (List.dropWhile_sublist _).length_le

theorem length_of_next? {text rest : List Char} {l : Lexeme} (h : next? text = some (l, rest)) :
    rest.length < text.length := by
  simp only [next?] at h
  have hdrop : (text.dropWhile isSeparator).length ≤ text.length :=
    (List.dropWhile_sublist _).length_le
  split at h
  · simp at h
  · next c tail heq =>
    rw [heq] at hdrop
    have hfirst := length_first c tail
    rw [Option.some.inj h] at hfirst
    simp only [List.length_cons] at hdrop hfirst
    omega

/-- The lexemes of a text, after those found before it, which are given last first. -/
def allAfter (found : List Lexeme) (text : List Char) : List Lexeme :=
  match _h : next? text with
  | none => found.reverse
  | some (l, rest) => allAfter (l :: found) rest
termination_by text.length
decreasing_by exact length_of_next? _h

/-- The lexemes of a text. -/
def all (text : List Char) : List Lexeme := allAfter [] text

/-! ### The sequence of lexemes -/

theorem allAfter_eq (found : List Lexeme) (text : List Char) :
    allAfter found text = found.reverse ++ all text := by
  rw [all]
  generalize hn : text.length = n
  induction n using Nat.strongRecOn generalizing found text with
  | ind n ih =>
    rw [allAfter, allAfter]
    split
    · simp
    · next l rest h =>
      have hlt : rest.length < n := hn ▸ length_of_next? h
      rw [ih _ hlt (l :: found) rest rfl, ih _ hlt [l] rest rfl]
      simp

/-- The lexemes of a text, by its first lexeme. -/
theorem all_eq (text : List Char) :
    all text = match next? text with
      | none => []
      | some (l, rest) => l :: all rest := by
  rw [all, allAfter]
  split
  · next h => simp [h]
  · next l rest h => simp [h, allAfter_eq]

theorem all_of_next? {text rest : List Char} {l : Lexeme} (h : next? text = some (l, rest)) :
    all text = l :: all rest := by
  rw [all_eq, h]

/-! ### The first lexeme -/

section First

variable {text tail name opened : List Char} {c : Char}

theorem next?_of_dropWhile (h : text.dropWhile isSeparator = c :: tail) :
    next? text = some (first c tail) := by
  rw [next?, h]

theorem first_of_opening (hc : c ≠ ')') (hname : takeName (c :: tail) = (name, '(' :: opened)) :
    first c tail = (.opening name ('(' :: opened), opened) := by
  rw [first, if_neg hc, hname]
  rfl

theorem first_of_word (hc : c ≠ ')')
    (hname : ∀ name opened, takeName (c :: tail) ≠ (name, '(' :: opened)) :
    first c tail = (.word (c :: tail.takeWhile isWordChar), tail.dropWhile isWordChar) := by
  rw [first, if_neg hc]
  split
  · next name opened heq => exact absurd heq (hname name opened)
  · rfl

theorem all_of_closing (h : text.dropWhile isSeparator = ')' :: tail) :
    all text = .closing :: all tail :=
  all_of_next? (next?_of_dropWhile h)

theorem all_of_opening (h : text.dropWhile isSeparator = c :: tail) (hc : c ≠ ')')
    (hname : takeName (c :: tail) = (name, '(' :: opened)) :
    all text = .opening name ('(' :: opened) :: all opened :=
  all_of_next? (by rw [next?_of_dropWhile h, first_of_opening hc hname])

theorem all_of_word (h : text.dropWhile isSeparator = c :: tail) (hc : c ≠ ')')
    (hname : ∀ name opened, takeName (c :: tail) ≠ (name, '(' :: opened)) :
    all text = .word (c :: tail.takeWhile isWordChar) :: all (tail.dropWhile isWordChar) :=
  all_of_next? (by rw [next?_of_dropWhile h, first_of_word hc hname])

end First

section Next

variable {text rest tail letters name opened : List Char} {c : Char} {l : Lexeme}

theorem dropWhile_eq_nil_of_next? (h : next? text = none) : text.dropWhile isSeparator = [] := by
  rw [next?] at h
  split at h
  next hdrop => exact hdrop
  · cases h

theorem next?_eq_none (h : next? text = none) : ∀ c ∈ text, IsPlain c := fun c hc =>
  isPlain_of_isSeparator (List.dropWhile_eq_nil_iff.1 (dropWhile_eq_nil_of_next? h) c hc)

theorem exists_of_next? (h : next? text = some (l, rest)) :
    ∃ c tail, text.dropWhile isSeparator = c :: tail ∧ first c tail = (l, rest) := by
  rw [next?] at h
  split at h
  · cases h
  next c tail hdrop => exact ⟨c, tail, hdrop, Option.some.inj h⟩

theorem of_first_closing (h : first c tail = (closing, rest)) : c = ')' ∧ rest = tail := by
  rw [first] at h
  split at h
  next hc =>
    cases h
    exact ⟨hc, rfl⟩
  · split at h <;> cases h

theorem of_first_opening (h : first c tail = (opening name opened, rest)) :
    c ≠ ')' ∧ takeName (c :: tail) = (name, '(' :: rest) ∧ opened = '(' :: rest := by
  rw [first] at h
  split at h
  · cases h
  next hc =>
    split at h
    next hname =>
      cases h
      exact ⟨hc, hname, rfl⟩
    · cases h

theorem of_first_word (h : first c tail = (word letters, rest)) :
    IsPlain c ∧ (∀ name opened, takeName (c :: tail) ≠ (name, '(' :: opened)) ∧
      letters = c :: tail.takeWhile isWordChar ∧ rest = tail.dropWhile isWordChar := by
  rw [first] at h
  split at h
  · cases h
  next hc =>
    split at h
    · cases h
    next hname =>
      cases h
      refine ⟨⟨?_, hc⟩, hname, rfl, rfl⟩
      rintro rfl
      exact hname [] tail rfl

/-- In front of the parenthesis of an opening stands its name, and separators before that. -/
theorem eq_append_of_next?_opening (h : next? text = some (opening name opened, rest)) :
    ∃ skipped, (∀ c ∈ skipped ++ name, IsPlain c) ∧ text = skipped ++ name ++ '(' :: rest := by
  obtain ⟨c, tail, hdrop, hfirst⟩ := exists_of_next? h
  obtain ⟨-, hname, -⟩ := of_first_opening hfirst
  have happend := takeName_append (c :: tail)
  rw [hname, ← hdrop] at happend
  refine ⟨text.takeWhile isSeparator, fun d hd => ?_, ?_⟩
  · rcases List.mem_append.1 hd with hd | hd
    · exact isPlain_of_isSeparator (of_mem_takeWhile hd)
    · exact @isPlain_of_mem_takeName (c :: tail) d (by rw [hname]; exact hd)
  · rw [List.append_assoc, happend, List.takeWhile_append_dropWhile]

/-- What stands at the front of a text whose first lexeme is known: plain characters, and then the
parenthesis of the lexeme if it has one. -/
theorem next?_cases (h : next? text = some (l, rest)) :
    ∃ front, (∀ c ∈ front, IsPlain c) ∧ match l with
      | .opening _ opened => opened = '(' :: rest ∧ text = front ++ opened
      | .closing => text = front ++ ')' :: rest
      | .word _ => text = front ++ rest := by
  obtain ⟨c, tail, hdrop, hfirst⟩ := exists_of_next? h
  have hskip : ∀ c ∈ text.takeWhile isSeparator, IsPlain c := fun c hc =>
    isPlain_of_isSeparator (of_mem_takeWhile hc)
  have htext : text = text.takeWhile isSeparator ++ c :: tail := by
    rw [← hdrop, List.takeWhile_append_dropWhile]
  cases l with
  | closing =>
    obtain ⟨rfl, rfl⟩ := of_first_closing hfirst
    exact ⟨_, hskip, htext⟩
  | opening name opened =>
    obtain ⟨-, -, rfl⟩ := of_first_opening hfirst
    obtain ⟨skipped, hplain, happend⟩ := eq_append_of_next?_opening h
    exact ⟨skipped ++ name, hplain, rfl, happend⟩
  | word letters =>
    obtain ⟨hplain, -, -, rfl⟩ := of_first_word hfirst
    refine ⟨text.takeWhile isSeparator ++ c :: tail.takeWhile isWordChar, fun d hd => ?_, ?_⟩
    · rcases List.mem_append.1 hd with hd | hd
      · exact hskip d hd
      · rcases List.mem_cons.1 hd with rfl | hd
        · exact hplain
        · exact isPlain_of_isWordChar (of_mem_takeWhile hd)
    · dsimp only
      rw [List.append_assoc, List.cons_append, List.takeWhile_append_dropWhile]
      exact htext

end Next

/-! ### More text behind -/

section Append

variable {text rest name opened : List Char}

theorem dropWhile_append_of_cons {c : Char} {tail : List Char}
    (h : text.dropWhile isSeparator = c :: tail) (more : List Char) :
    (text ++ more).dropWhile isSeparator = c :: (tail ++ more) := by
  rw [List.dropWhile_append, h]
  rfl

/-- An opening does not depend on what follows its parenthesis, up to the text that it keeps. -/
theorem next?_append_of_opening (h : next? text = some (opening name opened, rest))
    (more : List Char) :
    next? (text ++ more) = some (opening name (opened ++ more), rest ++ more) := by
  obtain ⟨c, tail, hdrop, hfirst⟩ := exists_of_next? h
  obtain ⟨hc, hname, rfl⟩ := of_first_opening hfirst
  have htake := takeName_append_of_opening hname more
  rw [List.cons_append] at htake
  rw [next?_of_dropWhile (dropWhile_append_of_cons hdrop more), first_of_opening hc htake]
  rfl

theorem next?_append_of_separators {front : List Char} (h : ∀ c ∈ front, isSeparator c = true)
    (text : List Char) : next? (front ++ text) = next? text := by
  rw [next?, List.dropWhile_append_of_pos h]
  rfl

end Append

end Lexeme

end Value

end CssTransform
