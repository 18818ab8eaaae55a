import CssTransform.Proofs.Text.Run
import CssTransform.Stylesheet.Token

/-!
# Scanning up to a stop

A scanner that is done with a text, or stops at the end of it, gives the same result whatever
stands behind, as long as that is nothing or begins with a character at which it stops anyway. Most
scanners stop at any colon, semicolon, slash or closing curly bracket and need not look behind it to
tell. Strings, comments, addresses and escapes may hold such a character, and go on after it.

This module is about the characters, escapes and names. They end at more characters than those four,
and are told about for all of them.

## Which choice is load-bearing

What stands behind is one of two texts throughout, and both may be nothing. So one induction for
each scanner serves for exchanging what follows a stop, where something follows in both cases, and
for the end of a sheet, where nothing follows in one of them.

A backslash at the end of a text is an escape by itself, and takes the next character if there is
one. So a name in a text that ends with a backslash has to end before it.

## Main definitions

* `IsBound` — a character that may not stand in a name
* `IsStop` — the four characters
* `Bounded`, `Stopped` — nothing, or a text that begins with one of them

## Main results

* `escapeLength_append`, `escapedChar_append` — escapes
* `nameLength_append`, `nameText_append` — names
-/

namespace CssTransform

namespace Stylesheet

open Text (takeWhile_append_of_head)

/-! ### Bounds and stops -/

theorem isNameChar_of_isHexDigit {c : Char} (h : isHexDigit c = true) : isNameChar c = true := by
  have halpha : c.isAlpha = (c.isUpper || c.isLower) := rfl
  simp only [isHexDigit, Bool.or_eq_true, Bool.and_eq_true, decide_eq_true_eq] at h
  rcases h with (hdigit | ⟨hle, hge⟩) | ⟨hle, hge⟩
  · simp [isNameChar, hdigit]
  · have hlower : c.isLower = true :=
      Bool.and_eq_true_iff.2 ⟨decide_eq_true hle, decide_eq_true (UInt32.le_trans hge (by decide))⟩
    simp [isNameChar, isNameStart, halpha, hlower]
  · have hupper : c.isUpper = true :=
      decide_eq_true ⟨hle, UInt32.le_trans hge (by decide)⟩
    simp [isNameChar, isNameStart, halpha, hupper]

/-- A character that stands in no name and belongs to no escape that has begun before it. -/
structure IsBound (e : Char) : Prop where
  isNameChar : isNameChar e = false
  isBlank : isBlank e = false
  ne_backslash : e ≠ '\\'

namespace IsBound

variable {e : Char}

theorem isLineEnd (h : IsBound e) : isLineEnd e = false := by
  have hblank := h.isBlank
  rw [Stylesheet.isBlank, Bool.or_eq_false_iff] at hblank
  exact hblank.2

theorem isHexDigit (h : IsBound e) : isHexDigit e = false := by
  rw [Bool.eq_false_iff]
  intro hhex
  refine absurd (isNameChar_of_isHexDigit hhex) ?_
  simp [h.isNameChar]

end IsBound

/-- A character where every token ends that may not hold any character. -/
def IsStop (d : Char) : Prop := d = ':' ∨ d = ';' ∨ d = '/' ∨ d = '\x7d'

instance : DecidablePred IsStop := fun _ => inferInstanceAs (Decidable (_ ∨ _))

namespace IsStop

variable {d : Char}

theorem isBound (h : IsStop d) : IsBound d := by
  rcases h with rfl | rfl | rfl | rfl <;> constructor <;> decide

theorem isDigit (h : IsStop d) : d.isDigit = false := by
  rcases h with rfl | rfl | rfl | rfl <;> decide

theorem ne (h : IsStop d) {e : Char} (he : ¬IsStop e) : d ≠ e := by
  rintro rfl
  exact he h

end IsStop

/-- Nothing, or a text that begins with a bound. -/
def Bounded (z : List Char) : Prop := ∀ e ∈ z.head?, IsBound e

/-- Nothing, or a text that begins with a stop. -/
def Stopped (z : List Char) : Prop := ∀ d ∈ z.head?, IsStop d

theorem Bounded.isBlank {z : List Char} (hz : Bounded z) : ∀ e ∈ z.head?, isBlank e = false :=
  fun e he => (hz e he).isBlank

theorem Stopped.bounded {z : List Char} (hz : Stopped z) : Bounded z :=
  fun d hd => (hz d hd).isBound

theorem stopped_nil : Stopped [] := fun _ hd => nomatch hd

theorem bounded_cons {e : Char} {y : List Char} : Bounded (e :: y) ↔ IsBound e := by
  simp [Bounded]

theorem stopped_cons {d : Char} {y : List Char} : Stopped (d :: y) ↔ IsStop d := by
  simp [Stopped]

/-- Of two branches only the one that is taken has to end in time. -/
theorem ite_eq_ite_of_le {α : Type} {p : Prop} [Decidable p] (size : α → Nat) {a a' b b' : α}
    {n : Nat} (h : size (if p then a else b) ≤ n) (ha : p → size a ≤ n → a' = a)
    (hb : ¬p → size b ≤ n → b' = b) : (if p then a' else b') = if p then a else b := by
  by_cases hp : p
  · rw [if_pos hp] at h
    rw [if_pos hp, if_pos hp, ha hp h]
  · rw [if_neg hp] at h
    rw [if_neg hp, if_neg hp, hb hp h]

variable {r z z' : List Char}

/-! ### Characters and escapes -/

theorem startsLineEnd_append (hz : Bounded z) (r : List Char) :
    startsLineEnd (r ++ z) = startsLineEnd r := by
  cases r with
  | cons c r => rfl
  | nil =>
    cases z with
    | nil => rfl
    | cons e y => exact (bounded_cons.1 hz).isLineEnd

theorem startsEscape_append (hz : Bounded z) (r : List Char) :
    startsEscape (r ++ z) = startsEscape r :=
  congrArg (!·) (startsLineEnd_append hz r)

theorem escapeDigits_append (hz : Bounded z) (r : List Char) :
    escapeDigits (r ++ z) = escapeDigits r := by
  have htake : ∀ e ∈ (z.take (6 - r.length)).head?, isHexDigit e = false := by
    intro e he
    rw [List.head?_take] at he
    split at he
    · cases he
    · exact (hz e he).isHexDigit
  rw [escapeDigits, List.take_append, takeWhile_append_of_head htake, escapeDigits]

theorem length_escapeDigits_le (r : List Char) : (escapeDigits r).length ≤ r.length :=
  ((List.takeWhile_sublist _).trans (List.take_sublist _ _)).length_le

theorem escapeBlankLength_cons_cons (c d : Char) (rest : List Char) :
    escapeBlankLength (c :: d :: rest) =
      if c = '\r' ∧ d = '\n' then 2 else if isBlank c then 1 else 0 := by
  by_cases h : c = '\r' ∧ d = '\n'
  · rw [if_pos h, h.1, h.2]
    rfl
  · rw [if_neg h]
    simp only [escapeBlankLength]
    split
    · next heq =>
      simp only [List.cons.injEq] at heq
      exact absurd ⟨heq.1, heq.2.1⟩ h
    · next heq => rw [(List.cons.inj heq).1]
    · next heq => cases heq

/-- A bound is no part of a line end. -/
theorem IsBound.ne_lineEnd {e : Char} (he : IsBound e) : e ≠ '\r' ∧ e ≠ '\n' := by
  constructor <;>
  · rintro rfl
    exact absurd he.isLineEnd (by decide)

theorem escapeBlankLength_append (hz : Bounded z) (r : List Char) :
    escapeBlankLength (r ++ z) = escapeBlankLength r := by
  cases z with
  | nil => rw [List.append_nil]
  | cons e y =>
    have he := bounded_cons.1 hz
    obtain ⟨hreturn, hnewline⟩ := he.ne_lineEnd
    match r with
    | [] => simp [hreturn, he.isBlank, escapeBlankLength]
    | [c] => simp [hnewline, escapeBlankLength]
    | c :: d :: r => simp only [List.cons_append, escapeBlankLength_cons_cons]

theorem escapeBlankLength_le (r : List Char) : escapeBlankLength r ≤ r.length := by
  match r with
  | [] => exact Nat.le_refl _
  | [c] =>
    simp only [escapeBlankLength, List.length_singleton]
    split <;> omega
  | c :: d :: r =>
    rw [escapeBlankLength_cons_cons, List.length_cons, List.length_cons]
    split
    · omega
    · split <;> omega

/-- The character right after the backslash belongs to the escape, whatever it is. -/
theorem escapeLength_append (hz : Bounded z) (hr : r ≠ []) :
    escapeLength (r ++ z) = escapeLength r := by
  obtain ⟨c, r, rfl⟩ := List.exists_cons_of_ne_nil hr
  have hdigits := escapeDigits_append hz (c :: r)
  have hle := length_escapeDigits_le (c :: r)
  simp only [escapeLength]
  simp only [List.cons_append] at hdigits ⊢
  rw [hdigits, ← List.cons_append, List.drop_append_of_le_length hle,
    escapeBlankLength_append hz]

theorem escapeLength_le (r : List Char) : escapeLength r ≤ r.length := by
  cases r with
  | nil => exact Nat.le_refl _
  | cons c r =>
    have hdigits := length_escapeDigits_le (c :: r)
    have hblank := escapeBlankLength_le ((c :: r).drop (escapeDigits (c :: r)).length)
    rw [List.length_drop] at hblank
    simp only [escapeLength]
    split
    · omega
    · simp

/-- An escaped bound is an escape of its own. -/
theorem IsBound.escapeLength {e : Char} (he : IsBound e) (y : List Char) :
    escapeLength (e :: y) = 1 := by
  simp [Stylesheet.escapeLength, he.isHexDigit]

theorem escapedChar_append (hz : Bounded z) (hr : r ≠ []) :
    escapedChar (r ++ z) = escapedChar r := by
  obtain ⟨c, r, rfl⟩ := List.exists_cons_of_ne_nil hr
  have hdigits := escapeDigits_append hz (c :: r)
  simp only [escapedChar]
  simp only [List.cons_append] at hdigits ⊢
  rw [hdigits]

/-! ### Names -/

theorem startsName_cons_cons (c d : Char) (rest : List Char) :
    startsName (c :: d :: rest) =
      if c = '-' then isNameStart d || d == '-' || d == '\\'
      else if c = '\\' then !isLineEnd d else isNameStart c := by
  by_cases hhyphen : c = '-'
  · subst hhyphen
    rfl
  · by_cases hescape : c = '\\'
    · subst hescape
      rfl
    · rw [if_neg hhyphen, if_neg hescape]
      simp only [startsName]
      split
      · next heq => exact absurd (List.cons.inj heq).1 hhyphen
      · next heq => exact absurd (List.cons.inj heq).1 hescape
      · next heq => rw [(List.cons.inj heq).1]
      · next heq => cases heq

theorem startsName_append (hz : Bounded z) (r : List Char) :
    startsName (r ++ z) = startsName r := by
  cases z with
  | nil => rw [List.append_nil]
  | cons e y =>
    have he := bounded_cons.1 hz
    have hname := he.isNameChar
    simp only [isNameChar, Bool.or_eq_false_iff] at hname
    obtain ⟨⟨hstart, -⟩, hhyphen⟩ := hname
    match r with
    | [] =>
      have hne : e ≠ '-' := by simpa using hhyphen
      simp [hstart, hne, he.ne_backslash, startsName]
    | [c] =>
      rw [List.singleton_append, startsName_cons_cons]
      split
      · next hc =>
        have hbackslash : (e == '\\') = false := by simp [he.ne_backslash]
        rw [hc, hstart, hhyphen, hbackslash]
        rfl
      · split
        · next hc => simp [hc, he.isLineEnd, startsName, startsEscape, startsLineEnd]
        · simp [startsName]
    | c :: d :: r => simp only [List.cons_append, startsName_cons_cons]

/-- A text without its first character ends as it did. -/
theorem getLast?_ne_of_cons {c : Char} (h : (c :: r).getLast? ≠ some '\\') :
    r.getLast? ≠ some '\\' := by
  cases r with
  | nil => simp
  | cons b s => rwa [List.getLast?_cons_cons] at h

theorem getLast?_drop_ne (n : Nat) (hlast : r.getLast? ≠ some '\\') :
    (r.drop n).getLast? ≠ some '\\' := by
  rw [List.getLast?_drop]
  split
  · simp
  · exact hlast

/-- No name begins with a bound. -/
theorem Bounded.nameLength (hz : Bounded z) : nameLength z = 0 := by
  cases z with
  | nil => rfl
  | cons e y =>
    have he := bounded_cons.1 hz
    simp [Stylesheet.nameLength, nameLengthAfter, he.isNameChar, he.ne_backslash]

theorem Bounded.nameText (hz : Bounded z) : nameText z = [] := by
  cases z with
  | nil => rfl
  | cons e y =>
    have he := bounded_cons.1 hz
    simp [Stylesheet.nameText, nameTextAfter, he.isNameChar, he.ne_backslash]

/-- A name that ends with the text that it is in has no backslash at the end that escapes what
follows. -/
theorem ne_nil_of_nameLengthAfter_le (hz : Bounded z)
    (h : nameLengthAfter (escapeLength (r ++ z)) (r ++ z) ≤ r.length)
    (hlast : z = [] → ('\\' :: r).getLast? ≠ some '\\') : r ≠ [] := by
  rintro rfl
  cases z with
  | nil => exact hlast rfl rfl
  | cons e y =>
    rw [List.nil_append, (bounded_cons.1 hz).escapeLength, nameLengthAfter] at h
    cases h

section Names

variable {skipped : Nat} (hz : Bounded z) (hz' : Bounded z') (hskipped : skipped ≤ r.length)
  (h : nameLengthAfter skipped (r ++ z) ≤ r.length) (hlast : z = [] → r.getLast? ≠ some '\\')
include hz hz' hskipped h hlast

theorem nameLengthAfter_append :
    nameLengthAfter skipped (r ++ z') = nameLengthAfter skipped (r ++ z) := by
  induction r generalizing skipped with
  | nil =>
    obtain rfl := Nat.le_zero.1 hskipped
    exact hz'.nameLength.trans hz.nameLength.symm
  | cons c r ih =>
    have hlast' := fun hnil => getLast?_ne_of_cons (hlast hnil)
    cases skipped with
    | succ skipped =>
      simp only [List.cons_append, nameLengthAfter, List.length_cons] at h ⊢
      rw [ih (by simpa using hskipped) (by omega) hlast']
    | zero =>
      simp only [List.cons_append, nameLengthAfter, List.length_cons, startsEscape_append hz,
        startsEscape_append hz'] at h ⊢
      refine ite_eq_ite_of_le id h (fun _ (h : _ + 1 ≤ _) => ?name) fun _ h => ?_
      case name => rw [ih (Nat.zero_le _) (by omega) hlast']
      refine ite_eq_ite_of_le id h (fun hescape (hle : _ + 1 ≤ _) => ?escape) fun _ _ => rfl
      case escape =>
        obtain ⟨rfl, -⟩ := hescape
        have hr := ne_nil_of_nameLengthAfter_le hz (Nat.le_of_succ_le_succ hle) hlast
        rw [escapeLength_append hz hr] at hle ⊢
        rw [escapeLength_append hz' hr, ih (escapeLength_le r) (by omega) hlast']

/-- What a name spells. -/
theorem nameTextAfter_append :
    nameTextAfter skipped (r ++ z') = nameTextAfter skipped (r ++ z) := by
  induction r generalizing skipped with
  | nil =>
    obtain rfl := Nat.le_zero.1 hskipped
    exact hz'.nameText.trans hz.nameText.symm
  | cons c r ih =>
    have hlast' := fun hnil => getLast?_ne_of_cons (hlast hnil)
    cases skipped with
    | succ skipped =>
      simp only [List.cons_append, nameLengthAfter, nameTextAfter, List.length_cons] at h ⊢
      exact ih (by simpa using hskipped) (by omega) hlast'
    | zero =>
      simp only [List.cons_append, nameLengthAfter, nameTextAfter, List.length_cons,
        startsEscape_append hz, startsEscape_append hz'] at h ⊢
      split
      · next hname =>
        rw [if_pos hname] at h
        rw [ih (Nat.zero_le _) (by omega) hlast']
      · next hname =>
        rw [if_neg hname] at h
        split
        · next hescape =>
          rw [if_pos hescape] at h
          obtain ⟨rfl, -⟩ := hescape
          have hr := ne_nil_of_nameLengthAfter_le hz (Nat.le_of_succ_le_succ h) hlast
          rw [escapeLength_append hz hr] at h ⊢
          rw [escapeLength_append hz' hr, escapedChar_append hz hr, escapedChar_append hz' hr,
            ih (escapeLength_le r) (by omega) hlast']
        · rfl

end Names

theorem nameLength_append (hz : Bounded z) (hz' : Bounded z') (h : nameLength (r ++ z) ≤ r.length)
    (hlast : z = [] → r.getLast? ≠ some '\\') : nameLength (r ++ z') = nameLength (r ++ z) :=
  nameLengthAfter_append hz hz' (Nat.zero_le _) h hlast

theorem nameText_append (hz : Bounded z) (hz' : Bounded z') (h : nameLength (r ++ z) ≤ r.length)
    (hlast : z = [] → r.getLast? ≠ some '\\') : nameText (r ++ z') = nameText (r ++ z) :=
  nameTextAfter_append hz hz' (Nat.zero_le _) h hlast

theorem nameLengthAfter_le (skipped : Nat) (s : List Char) :
    nameLengthAfter skipped s ≤ s.length := by
  induction s generalizing skipped with
  | nil => simp [nameLengthAfter]
  | cons c s ih =>
    cases skipped with
    | succ skipped => exact Nat.succ_le_succ (ih skipped)
    | zero =>
      simp only [nameLengthAfter, List.length_cons]
      split
      · exact Nat.succ_le_succ (ih 0)
      · split
        · exact Nat.succ_le_succ (ih _)
        · exact Nat.zero_le _

theorem nameLength_le (s : List Char) : nameLength s ≤ s.length := nameLengthAfter_le 0 s

end Stylesheet

end CssTransform
