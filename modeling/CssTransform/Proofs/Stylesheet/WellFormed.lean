import CssTransform.Proofs.Stylesheet.Compile

/-!
# The edits of a compilation are in order

Applying edits cuts the sheet at the ends of their spans, and is total: it cuts somewhere even where
there is nothing to cut. Copying with checks fails instead where a cut would run backwards, past the
end of the sheet or through a character. It never fails on the edits of a compilation, since their
spans lie in the sheet, between its characters, and each begins where the one before has ended or
later.

## Which choice is load-bearing

Well-formed edits are told by their spans alone, which is all that the checks look at. That they
are is not shown along the walk, where a declaration may still be given up. It follows from what the
edits do to the level that the sheet is, part by part.

## Main definitions

* `Text.isBoundary` — whether a text can be cut at a place
* `Text.slice?`, `Text.copyEdits?` — cutting out a span and copying a text with edits, with checks
* `Text.WellFormed` — edits of a text, each behind the one before
* `Stylesheet.editsMade` — the edits of a compilation with settings

## Main results

* `Text.isBoundary_iff` — a text can be cut where two texts meet that make it up
* `Text.WellFormed.copyEdits?_eq` — with well-formed edits no check fails
* `Text.Replaces.wellFormed` — edits that replace parts of a text are well-formed
* `Stylesheet.compile_wellFormed` — the edits of a compilation are well-formed, as many as are
  counted, and all that it does
-/

namespace CssTransform

namespace Text

/-! ### Cuts with checks -/

/-- Whether a place is at the ends of a text or between two of its characters. -/
def isBoundary : List Char → Nat → Bool
  | _, 0 => true
  | [], _ + 1 => false
  | c :: rest, n + 1 => c.utf8Size ≤ n + 1 && isBoundary rest (n + 1 - c.utf8Size)

@[simp] theorem isBoundary_zero (text : List Char) : isBoundary text 0 = true := by
  cases text <;> rfl

theorem isBoundary_cons {n : Nat} (hn : n ≠ 0) (c : Char) (rest : List Char) :
    isBoundary (c :: rest) n = (decide (c.utf8Size ≤ n) && isBoundary rest (n - c.utf8Size)) := by
  cases n with
  | zero => exact absurd rfl hn
  | succ n => rfl

@[simp] theorem isBoundary_append (before after : List Char) :
    isBoundary (before ++ after) (byteLength before) = true := by
  induction before with
  | nil => exact isBoundary_zero after
  | cons c before ih =>
    have hc := c.utf8Size_pos
    rw [List.cons_append, isBoundary_cons (by simp; omega), byteLength_cons,
      Nat.add_sub_cancel_left, ih, Bool.and_true, decide_eq_true_eq]
    exact Nat.le_add_right _ _

/-- **A text can be cut where two texts meet that make it up.** -/
theorem isBoundary_iff {text : List Char} {place : Nat} : isBoundary text place = true ↔
    ∃ before after, text = before ++ after ∧ place = byteLength before := by
  constructor
  · intro h
    induction text generalizing place with
    | nil =>
      cases place with
      | zero => exact ⟨[], [], rfl, rfl⟩
      | succ place => cases h
    | cons c rest ih =>
      rcases Nat.eq_zero_or_pos place with rfl | hpos
      · exact ⟨[], c :: rest, rfl, rfl⟩
      · rw [isBoundary_cons (by omega), Bool.and_eq_true, decide_eq_true_eq] at h
        obtain ⟨before, after, rfl, hplace⟩ := ih h.2
        refine ⟨c :: before, after, rfl, ?_⟩
        rw [byteLength_cons]
        omega
  · rintro ⟨before, after, rfl, rfl⟩
    exact isBoundary_append before after

theorem le_of_isBoundary {text : List Char} {place : Nat} (h : isBoundary text place = true) :
    place ≤ byteLength text := by
  obtain ⟨before, after, rfl, rfl⟩ := isBoundary_iff.1 h
  rw [byteLength_append]
  exact Nat.le_add_right _ _

theorem isBoundary_byteLength (text : List Char) : isBoundary text (byteLength text) = true := by
  have hend := isBoundary_append text []
  rwa [List.append_nil] at hend

/-- The text that a span of a text covers, if it runs forward between places where the text can be
cut. -/
def slice? (text : List Char) (span : Span) : Option (List Char) :=
  if span.start ≤ span.stop ∧ isBoundary text span.start ∧ isBoundary text span.stop then
    some (span.of text)
  else none

theorem slice?_eq {text : List Char} {span : Span} (hle : span.start ≤ span.stop)
    (hstart : isBoundary text span.start = true) (hstop : isBoundary text span.stop = true) :
    slice? text span = some (span.of text) := if_pos ⟨hle, hstart, hstop⟩

/-- Copies a text from a place on, with the texts of edits in place of their spans. -/
def copyEdits? (text : List Char) (copied : Nat) : List Edit → Option (List Char)
  | [] => slice? text ⟨copied, byteLength text⟩
  | e :: edits => do
    let kept ← slice? text ⟨copied, e.span.start⟩
    let rest ← copyEdits? text e.span.stop edits
    return kept ++ e.text ++ rest

/-! ### Edits in order -/

/-- Edits whose spans lie in a text, between its characters, each behind the one before. -/
structure WellFormed (text : List Char) (edits : List Edit) : Prop where
  within : ∀ e ∈ edits, e.span.start ≤ e.span.stop ∧ e.span.stop ≤ byteLength text
  cut : ∀ e ∈ edits, isBoundary text e.span.start = true ∧ isBoundary text e.span.stop = true
  ordered : edits.Pairwise fun e f => e.span.stop ≤ f.span.start

namespace WellFormed

variable {text : List Char} {e : Edit} {edits : List Edit}

theorem nil (text : List Char) : WellFormed text [] where
  within _ he := absurd he List.not_mem_nil
  cut _ he := absurd he List.not_mem_nil
  ordered := .nil

theorem cons (hle : e.span.start ≤ e.span.stop) (hstart : isBoundary text e.span.start = true)
    (hstop : isBoundary text e.span.stop = true)
    (hlater : ∀ f ∈ edits, e.span.stop ≤ f.span.start) (h : WellFormed text edits) :
    WellFormed text (e :: edits) where
  within := List.forall_mem_cons.2 ⟨⟨hle, le_of_isBoundary hstop⟩, h.within⟩
  cut := List.forall_mem_cons.2 ⟨⟨hstart, hstop⟩, h.cut⟩
  ordered := List.pairwise_cons.2 ⟨hlater, h.ordered⟩

theorem tail (h : WellFormed text (e :: edits)) : WellFormed text edits where
  within := fun f hf => h.within f (List.mem_cons_of_mem e hf)
  cut := fun f hf => h.cut f (List.mem_cons_of_mem e hf)
  ordered := (List.pairwise_cons.1 h.ordered).2

/-- No check fails from a place on that no edit begins before. -/
theorem copyEdits?_eq_from (h : WellFormed text edits) {copied : Nat}
    (hcopied : isBoundary text copied = true) (hahead : ∀ e ∈ edits, copied ≤ e.span.start) :
    copyEdits? text copied edits = some (applyEditsFrom copied (dropBytes copied text) edits) := by
  induction edits generalizing copied with
  | nil =>
    have hslice := @slice?_eq text ⟨copied, byteLength text⟩ (le_of_isBoundary hcopied) hcopied
      (isBoundary_byteLength text)
    obtain ⟨before, after, rfl, rfl⟩ := isBoundary_iff.1 hcopied
    have hall : takeBytes (byteLength after) after = after := by
      simpa using takeBytes_append after []
    rw [copyEdits?, hslice, Span.of, applyEditsFrom, dropBytes_append, byteLength_append,
      Nat.add_sub_cancel_left, hall]
  | cons e edits ih =>
    obtain ⟨hstart, hstop⟩ := h.cut e List.mem_cons_self
    have hforward := (h.within e List.mem_cons_self).1
    have hle := hahead e List.mem_cons_self
    have hslice := @slice?_eq text ⟨copied, e.span.start⟩ hle hcopied hstart
    have hrest := ih h.tail hstop (List.pairwise_cons.1 h.ordered).1
    have hdrop : dropBytes (e.span.stop - copied) (dropBytes copied text) =
        dropBytes e.span.stop text := by
      obtain ⟨before, after, rfl, rfl⟩ := isBoundary_iff.1 hcopied
      rw [dropBytes_append, ← dropBytes_add before, Nat.add_sub_cancel' (Nat.le_trans hle hforward)]
    rw [copyEdits?, hslice, hrest, applyEditsFrom, hdrop]
    rfl

/-- **With well-formed edits no check fails.** -/
theorem copyEdits?_eq (h : WellFormed text edits) :
    copyEdits? text 0 edits = some (applyEdits text edits) := by
  have hall := h.copyEdits?_eq_from (isBoundary_zero text) fun e _ => Nat.zero_le _
  rwa [dropBytes_zero] at hall

end WellFormed

/-- A cut through a character is noticed. -/
example : copyEdits? "é;".toList 0 [⟨⟨1, 2⟩, "e".toList⟩] = none := by decide

namespace Replaces

variable {place : Nat} {s s' : List Char} {es : List Edit}

/-- Edits of the rest of a text from a place on. -/
theorem wellFormed_from (h : Replaces place s es s') :
    ∀ before, place = byteLength before →
      WellFormed (before ++ s) es ∧ ∀ e ∈ es, place ≤ e.span.start := by
  induction h with
  | none place kept =>
    intro before _
    exact ⟨.nil _, fun e he => absurd he List.not_mem_nil⟩
  | @edit place rest out e edits kept old hstart hstop h ih =>
    intro before hplace
    have hstart' : e.span.start = byteLength (before ++ kept) := by
      rw [hstart, hplace, byteLength_append]
    have hstop' : e.span.stop = byteLength (before ++ kept ++ old) := by
      rw [hstop, hstart', byteLength_append (before ++ kept)]
    have htext : before ++ (kept ++ (old ++ rest)) = before ++ kept ++ old ++ rest := by simp
    obtain ⟨hwell, hlater⟩ := ih (before ++ kept ++ old) hstop'
    rw [htext]
    refine ⟨.cons (by omega) ?_ ?_ hlater hwell, ?_⟩
    · rw [hstart', List.append_assoc]
      exact isBoundary_append _ _
    · rw [hstop']
      exact isBoundary_append _ _
    · intro f hf
      rcases List.mem_cons.1 hf with rfl | hf
      · omega
      · have hle := hlater f hf
        omega

/-- **Edits that replace parts of a text are well-formed.** -/
theorem wellFormed (h : Replaces 0 s es s') : WellFormed s es := (h.wellFormed_from [] rfl).1

end Replaces

end Text

namespace Stylesheet

open Text (byteLength Replaces WellFormed copyEdits?)

/-! ### The edits of a sheet -/

variable {convert : List Char → Option (List Char)} {keepWritten : Bool} {css : List Char}

/-- The edits of a sheet make the compiled sheet of it. -/
theorem replaces_edits (convert : List Char → Option (List Char)) (keepWritten : Bool)
    (css : List Char) :
    Replaces 0 css (edits convert keepWritten css) (compileWith convert keepWritten css).css := by
  obtain ⟨l, hl⟩ := exists_splits css
  rw [hl.edits_eq, hl.compileWith_eq]
  have hlevel := @Level.replaces convert keepWritten l 0
  rwa [hl.render_eq] at hlevel

/-- When declarations are kept, an edit only puts something in. Otherwise it puts the conversion of
what it covers in its place. -/
theorem of_mem_edits {e : Text.Edit} (he : e ∈ edits convert keepWritten css) :
    if keepWritten then e.span.start = e.span.stop else convert (e.span.of css) = some e.text := by
  obtain ⟨d, -, hd⟩ := List.mem_filterMap.1 he
  simp only [Declaration.edit?, Option.bind_eq_bind, Option.bind_eq_some_iff] at hd
  obtain ⟨value, -, span, -, converted, hconverted, hedit⟩ := hd
  cases hedit
  cases keepWritten with
  | true => rfl
  | false => exact hconverted

/-- The edits of a compilation with settings. -/
def editsMade (settings : Settings) (css : List Char) : List Text.Edit :=
  if settings.enabled then
    edits (CssTransform.convert settings.onInvalid) settings.keepWritten css
  else []

theorem replaces_editsMade (settings : Settings) (css : List Char) :
    Replaces 0 css (editsMade settings css) (compile settings css).css := by
  rw [editsMade, compile]
  split
  · exact replaces_edits _ _ css
  · exact .none 0 css

theorem length_editsMade (settings : Settings) (css : List Char) :
    (editsMade settings css).length = (compile settings css).converted := by
  rw [editsMade, compile]
  split <;> rfl

/-- **The edits of a compilation are well-formed, and all that it does.** Their spans lie in the
sheet and between its characters, and each begins where the one before has ended or later. They are
empty when declarations are kept, and what they cover is converted otherwise. There are as many
edits as declarations counted as converted. Copying the sheet with them and with all checks gives
the compiled sheet, in which everything but their spans is kept in order. Where nothing is converted
the sheet stays as it is. -/
theorem compile_wellFormed (settings : Settings) (css : List Char) :
    WellFormed css (editsMade settings css) ∧
      (∀ e ∈ editsMade settings css,
        if settings.keepWritten then e.span.start = e.span.stop
        else CssTransform.convert settings.onInvalid (e.span.of css) = some e.text) ∧
      (editsMade settings css).length = (compile settings css).converted ∧
      copyEdits? css 0 (editsMade settings css) = some (compile settings css).css ∧
      Replaces 0 css (editsMade settings css) (compile settings css).css ∧
      ((compile settings css).converted = 0 → (compile settings css).css = css) := by
  have hreplaces := replaces_editsMade settings css
  have hlength := length_editsMade settings css
  refine ⟨hreplaces.wellFormed, ?_, hlength, ?_, hreplaces, ?_⟩
  · intro e he
    rw [editsMade] at he
    split at he
    · exact of_mem_edits he
    · exact absurd he List.not_mem_nil
  · rw [hreplaces.wellFormed.copyEdits?_eq, hreplaces.editsInto.applyEdits]
  · intro hzero
    rw [hzero, List.length_eq_zero_iff] at hlength
    rw [← hreplaces.editsInto.applyEdits, hlength, Text.applyEdits_nil]

/-- A kept declaration behind a character of two bytes, and one that has no conversion. -/
theorem compile_wellFormed_accent :
    (∃ e, editsMade ⟨true, true, Settings.defaultTest, .skip⟩
        "é{transform:scale(2) !important}".toList = [e] ∧ e.span = ⟨32, 32⟩) ∧
      (compile default "é{transform:none}".toList).css = "é{transform:none}".toList := by
  have hmade : (editsMade ⟨true, true, Settings.defaultTest, .skip⟩
      "é{transform:scale(2) !important}".toList).map (fun e => e.span.stop) = [32] := by
    decide +kernel
  obtain ⟨⟨⟨start, stop⟩, text⟩, hedits, hstop⟩ := List.map_eq_singleton_iff.1 hmade
  have hempty := (compile_wellFormed ⟨true, true, Settings.defaultTest, .skip⟩
    "é{transform:scale(2) !important}".toList).2.1 _ (hedits ▸ List.mem_singleton_self _)
  rw [if_pos rfl] at hempty
  obtain rfl : start = stop := hempty
  obtain rfl : start = 32 := hstop
  have hzero : (compile default "é{transform:none}".toList).converted = 0 := by decide +kernel
  exact ⟨⟨_, hedits, rfl⟩,
    (compile_wellFormed default "é{transform:none}".toList).2.2.2.2.2 hzero⟩

end Stylesheet

end CssTransform
