/-!
# Spans of a text

Places in a text are counted in bytes of its UTF-8 form. A span is the part between two places.

## Which choice is load-bearing

Cutting at a place that lies inside a character takes the whole character. No span that this
library forms ends inside one, but the functions are total either way.

## Main definitions

* `Text.byteLength` — the length of a text in bytes
* `Text.takeBytes`, `Text.dropBytes` — the text before and after a place
* `Span`, `Span.of` — a span, and the text it covers
* `Text.Edit`, `Text.applyEdits` — replacements of spans by texts

## Main results

* `Text.takeBytes_append`, `Text.dropBytes_append` — cutting where two texts meet gives the texts
* `Text.applyEditsFrom_append`, `Text.applyEditsFrom_cons` — edits copy what they do not cover
-/

namespace CssTransform

namespace Text

/-- The length of a text in bytes. -/
def byteLength : List Char → Nat
  | [] => 0
  | c :: rest => c.utf8Size + byteLength rest

@[simp] theorem byteLength_nil : byteLength [] = 0 := rfl

@[simp] theorem byteLength_cons (c : Char) (rest : List Char) :
    byteLength (c :: rest) = c.utf8Size + byteLength rest := rfl

@[simp] theorem byteLength_append (s t : List Char) :
    byteLength (s ++ t) = byteLength s + byteLength t := by
  induction s with
  | nil => simp
  | cons c s ih => simp [ih, Nat.add_assoc]

theorem byteLength_eq_zero {s : List Char} : byteLength s = 0 ↔ s = [] := by
  cases s with
  | nil => simp
  | cons c s =>
    have hc := c.utf8Size_pos
    simp only [byteLength_cons, reduceCtorEq, iff_false]
    omega

/-- The text after the first bytes of a text. -/
def dropBytes : Nat → List Char → List Char
  | _, [] => []
  | 0, text => text
  | n + 1, c :: rest => dropBytes (n + 1 - c.utf8Size) rest

/-- The first bytes of a text. -/
def takeBytes : Nat → List Char → List Char
  | _, [] => []
  | 0, _ => []
  | n + 1, c :: rest => c :: takeBytes (n + 1 - c.utf8Size) rest

@[simp] theorem dropBytes_zero (text : List Char) : dropBytes 0 text = text := by
  cases text <;> rfl

@[simp] theorem takeBytes_zero (text : List Char) : takeBytes 0 text = [] := by
  cases text <;> rfl

theorem dropBytes_cons {n : Nat} (hn : n ≠ 0) (c : Char) (rest : List Char) :
    dropBytes n (c :: rest) = dropBytes (n - c.utf8Size) rest := by
  cases n with
  | zero => exact absurd rfl hn
  | succ n => rfl

theorem takeBytes_cons {n : Nat} (hn : n ≠ 0) (c : Char) (rest : List Char) :
    takeBytes n (c :: rest) = c :: takeBytes (n - c.utf8Size) rest := by
  cases n with
  | zero => exact absurd rfl hn
  | succ n => rfl

theorem dropBytes_add (s t : List Char) (n : Nat) :
    dropBytes (byteLength s + n) (s ++ t) = dropBytes n t := by
  induction s with
  | nil => simp
  | cons c s ih =>
    have hc := c.utf8Size_pos
    rw [List.cons_append, dropBytes_cons (by simp; omega)]
    rw [show byteLength (c :: s) + n - c.utf8Size = byteLength s + n by simp; omega]
    exact ih

theorem takeBytes_add (s t : List Char) (n : Nat) :
    takeBytes (byteLength s + n) (s ++ t) = s ++ takeBytes n t := by
  induction s with
  | nil => simp
  | cons c s ih =>
    have hc := c.utf8Size_pos
    rw [List.cons_append, takeBytes_cons (by simp; omega)]
    rw [show byteLength (c :: s) + n - c.utf8Size = byteLength s + n by simp; omega, ih]
    rfl

@[simp] theorem dropBytes_append (s t : List Char) : dropBytes (byteLength s) (s ++ t) = t := by
  simpa using dropBytes_add s t 0

@[simp] theorem takeBytes_append (s t : List Char) : takeBytes (byteLength s) (s ++ t) = s := by
  simpa using takeBytes_add s t 0

end Text

/-- The part of a text between two places. -/
structure Span where
  start : Nat
  stop : Nat
deriving DecidableEq

namespace Span

/-- The text that a span of a text covers. -/
def of (text : List Char) (span : Span) : List Char :=
  Text.takeBytes (span.stop - span.start) (Text.dropBytes span.start text)

theorem of_append (before middle after : List Char) :
    of (before ++ middle ++ after)
        ⟨Text.byteLength before, Text.byteLength before + Text.byteLength middle⟩ = middle := by
  simp [of, List.append_assoc]

theorem of_eq {text : List Char} {span : Span} (before middle after : List Char)
    (htext : text = before ++ (middle ++ after)) (hstart : span.start = Text.byteLength before)
    (hstop : span.stop = Text.byteLength before + Text.byteLength middle) :
    span.of text = middle := by
  obtain ⟨start, stop⟩ := span
  dsimp only at hstart hstop
  rw [htext, hstart, hstop, ← List.append_assoc]
  exact of_append before middle after

end Span

namespace Text

/-- A text in place of a span. -/
structure Edit where
  span : Span
  text : List Char
deriving DecidableEq

/-- Replaces spans in the rest of a text that begins at the given place. The edits are in order and
do not overlap. -/
def applyEditsFrom (place : Nat) (rest : List Char) : List Edit → List Char
  | [] => rest
  | edit :: edits =>
    takeBytes (edit.span.start - place) rest ++ edit.text ++
      applyEditsFrom edit.span.stop (dropBytes (edit.span.stop - place) rest) edits

/-- Replaces spans in a text. -/
def applyEdits (text : List Char) (edits : List Edit) : List Char := applyEditsFrom 0 text edits

@[simp] theorem applyEdits_nil (text : List Char) : applyEdits text [] = text := rfl

/-- What stands before every edit is copied. -/
theorem applyEditsFrom_append {place : Nat} {s : List Char} {edits : List Edit} (rest : List Char)
    (h : ∀ e ∈ edits, place + byteLength s ≤ e.span.start ∧ e.span.start ≤ e.span.stop) :
    applyEditsFrom place (s ++ rest) edits =
      s ++ applyEditsFrom (place + byteLength s) rest edits := by
  cases edits with
  | nil => rfl
  | cons e edits =>
    obtain ⟨hstart, hstop⟩ := h e List.mem_cons_self
    have hstart' : e.span.start - place =
        byteLength s + (e.span.start - (place + byteLength s)) := by omega
    have hstop' : e.span.stop - place =
        byteLength s + (e.span.stop - (place + byteLength s)) := by omega
    rw [applyEditsFrom, applyEditsFrom, hstart', hstop', takeBytes_add, dropBytes_add]
    simp

/-- What an edit covers is replaced. -/
theorem applyEditsFrom_cons (place : Nat) (old new rest : List Char) (edits : List Edit) :
    applyEditsFrom place (old ++ rest) (⟨⟨place, place + byteLength old⟩, new⟩ :: edits) =
      new ++ applyEditsFrom (place + byteLength old) rest edits := by
  rw [applyEditsFrom]
  simp

end Text

end CssTransform
