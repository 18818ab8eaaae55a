import CssTransform.Proofs.Stylesheet.Edit
import Mathlib.Data.List.Basic

/-!
# What a compilation looks at

Compiling a sheet counts and edits the `transform` declarations among the segments of its level, and
nothing else: the compiled sheet is the level with every segment replaced by its compiled text.

## Main definitions

* `Level.transforms` — the `transform` declarations of a level

## Main results

* `Level.replaces` — the edits of the segments make the compiled level of the level
* `Splits.compileWith_eq` — a compiled sheet and its counts
* `compile_of_splits` — the same for a compilation with settings, told by what it counts
-/

namespace CssTransform

namespace Stylesheet

open Text (byteLength Replaces)

variable {convert : List Char → Option (List Char)} {keepWritten : Bool}

namespace Level

/-! ### Places -/

/-- Every segment of a level stands in the text of the level at its place. -/
theorem exists_eq_append (l : Level) {css : List Char} {place : Nat} (before after : List Char)
    (hcss : css = before ++ (l.render partsText ++ after)) (hplace : place = byteLength before) :
    ∀ s ∈ l.placedFrom place, ∃ before' after', css = before' ++ (partsText s.parts ++ after') ∧
      s.place = byteLength before' := by
  induction l generalizing before after place with
  | last parts =>
    intro s hs
    rw [placedFrom_last, List.mem_singleton] at hs
    subst hs
    exact ⟨before, after, hcss, hplace⟩
  | next parts mark rest ih =>
    intro s hs
    rw [placedFrom_next, List.mem_cons] at hs
    rcases hs with rfl | hs
    · exact ⟨before, mark.text ++ (rest.render partsText ++ after),
        hcss.trans (by simp [render]), hplace⟩
    · exact ih (before ++ (partsText parts ++ mark.text)) after
        (hcss.trans (by simp [render])) (by simp [hplace, Nat.add_assoc]) s hs
  | block front opener inside closer rest ihinside ihrest =>
    intro s hs
    rw [placedFrom_block, List.mem_append] at hs
    rcases hs with hs | hs
    · exact ihinside (before ++ (partsText front ++ opener.text))
        (closer.text ++ (rest.render partsText ++ after))
        (hcss.trans (by simp [render])) (by simp [hplace, Nat.add_assoc]) s hs
    · exact ihrest
        (before ++ (partsText front ++ (opener.text ++ (inside.render partsText ++ closer.text))))
        after (hcss.trans (by simp [render])) (by simp [hplace, length, Nat.add_assoc]) s hs
  | openBlock front opener inside ih =>
    intro s hs
    exact ih (before ++ (partsText front ++ opener.text)) after
      (hcss.trans (by simp [render])) (by simp [hplace, Nat.add_assoc]) s hs
  | deepBlock front piece rest ih =>
    intro s hs
    exact ih (before ++ (partsText front ++ piece.text)) after
      (hcss.trans (by simp [render])) (by simp [hplace, Nat.add_assoc]) s hs

/-! ### Edits -/

/-- The edits of the segments of a level. -/
def edits (convert : List Char → Option (List Char)) (keepWritten : Bool) (place : Nat)
    (l : Level) : List Text.Edit :=
  (l.placedFrom place).filterMap (Segment.edit? convert keepWritten)

theorem edits_cons (s : Segment) (ss : List Segment) :
    (s :: ss).filterMap (Segment.edit? convert keepWritten) =
      (s.edit? convert keepWritten).toList ++ ss.filterMap (Segment.edit? convert keepWritten) := by
  rw [List.filterMap_cons]
  cases s.edit? convert keepWritten <;> rfl

/-- **The edits of the segments make the compiled level of a level.** -/
theorem replaces (l : Level) (place : Nat) :
    Replaces place (l.render partsText) (l.edits convert keepWritten place)
      (l.render (compiledText convert keepWritten)) := by
  induction l generalizing place with
  | last parts =>
    rw [edits, placedFrom_last, edits_cons, List.filterMap_nil, List.append_nil]
    exact Segment.replaces convert keepWritten ⟨place, parts⟩
  | next parts mark rest ih =>
    rw [edits, placedFrom_next, edits_cons]
    exact (Segment.replaces convert keepWritten ⟨place, parts⟩).append
      ((ih _).prepend mark.text rfl)
  | block front opener inside closer rest ihinside ihrest =>
    rw [edits, placedFrom_block, List.filterMap_append]
    exact (((ihinside _).append ((ihrest _).prepend closer.text rfl)).prepend opener.text rfl
      ).prepend (partsText front) rfl
  | openBlock front opener inside ih =>
    exact ((ih _).prepend opener.text rfl).prepend (partsText front) rfl
  | deepBlock front piece rest ih =>
    exact ((ih _).prepend piece.text rfl).prepend (partsText front) rfl

/-- The texts that the edits of a level put in. -/
theorem map_text_edits (l : Level) (place : Nat) :
    (l.edits convert keepWritten place).map Text.Edit.text =
      l.segments.filterMap (editText? convert keepWritten) := by
  rw [edits, List.map_filterMap, ← l.map_parts_placedFrom place, List.filterMap_map]
  refine List.filterMap_congr fun s _ => ?_
  rw [Function.comp_apply, Segment.edit?, editText?, Option.map_map]
  refine congrArg (Option.map · _) (funext fun pair => ?_)
  cases keepWritten <;> rfl

/-! ### What is counted -/

/-- The `transform` declarations of a level and of the blocks in it, in order. -/
def transforms (l : Level) : List Written := l.segments.filterMap transformOf?

/-- The pieces of the segments of a level are made of tokens of the level. -/
theorem head_mem_tokens (l : Level) : ∀ ps ∈ l.segments, ∀ p ∈ ps, p.head ∈ l.tokens := by
  have hparts : ∀ (ps : List Piece), ∀ p ∈ ps, p.head ∈ tokensOf ps := fun ps p hp =>
    List.mem_flatMap.2 ⟨p, hp, List.mem_cons_self⟩
  induction l with
  | last parts =>
    intro ps hps p hp
    obtain rfl := List.mem_singleton.1 hps
    exact hparts ps p hp
  | next parts mark rest ih =>
    intro ps hps p hp
    rw [segments, List.mem_cons] at hps
    rw [tokens, List.mem_append, List.mem_cons]
    rcases hps with rfl | hps
    · exact .inl (hparts ps p hp)
    · exact .inr (.inr (ih ps hps p hp))
  | block front opener inside closer rest ihinside ihrest =>
    intro ps hps p hp
    rw [segments, List.mem_append] at hps
    rw [tokens, List.mem_append, List.mem_cons, List.mem_append, List.mem_cons]
    rcases hps with hps | hps
    · exact .inr (.inr (.inl (ihinside ps hps p hp)))
    · exact .inr (.inr (.inr (.inr (ihrest ps hps p hp))))
  | openBlock front opener inside ih =>
    intro ps hps p hp
    rw [tokens, List.mem_append, List.mem_cons]
    exact .inr (.inr (ih ps hps p hp))
  | deepBlock front piece rest ih =>
    intro ps hps p hp
    rw [tokens, List.mem_append, List.mem_append]
    exact .inr (.inr (ih ps hps p hp))

end Level

/-- Whether the value of a declaration has a text, and that text a conversion. -/
def Written.isConverted (convert : List Char → Option (List Char)) (w : Written) : Bool :=
  w.valueText ≠ [] && (convert w.valueText).isSome

theorem isSome_conversion? (convert : List Char → Option (List Char)) (ps : List Piece) :
    (conversion? convert ps).isSome =
      ((transformOf? ps).map (Written.isConverted convert)).getD false := by
  unfold conversion? Written.isConverted
  cases transformOf? ps with
  | none => rfl
  | some w =>
    by_cases hnil : w.valueText = []
    · simp [hnil]
    · cases hconvert : convert w.valueText <;> simp [hnil, hconvert]

/-- One edit for each declaration that is converted. -/
theorem Level.length_edits (l : Level) (place : Nat) :
    (l.edits convert keepWritten place).length =
      l.transforms.countP (Written.isConverted convert) := by
  rw [edits, List.length_filterMap_eq_countP, transforms, List.countP_filterMap,
    ← l.map_parts_placedFrom place, List.countP_map]
  refine List.countP_congr fun s _ => ?_
  rw [Function.comp_apply, ← isSome_conversion?, Segment.edit?, Option.isSome_map]

/-! ### Sheets -/

theorem text_ne_nil_of_mem_tokensAfter (found : List Token) (text : List Char) :
    ∀ t ∈ tokensAfter found text, t ∈ found ∨ t.text ≠ [] := by
  fun_induction tokensAfter found text with
  | case1 found => exact fun t ht => .inl (List.mem_reverse.1 ht)
  | case2 found c rest kind further ih =>
    intro t ht
    rcases ih t ht with hmem | hne
    · rcases List.mem_cons.1 hmem with rfl | hmem
      · exact .inr (List.cons_ne_nil _ _)
      · exact .inl hmem
    · exact .inr hne

theorem text_ne_nil_of_mem_tokens {css : List Char} {t : Token} (h : t ∈ tokens css) :
    t.text ≠ [] :=
  (text_ne_nil_of_mem_tokensAfter [] css t h).resolve_left List.not_mem_nil

variable {css : List Char} {l : Level}

/-- A sheet is the text of its level. -/
theorem Splits.render_eq (h : Splits css l) : l.render partsText = css := by
  rw [← l.textOf_tokens, ← h.tokens_eq]
  exact flatMap_text_tokens css

theorem Splits.length_transforms (h : Splits css l) :
    (transforms css).length = l.transforms.length := by
  rw [transforms, h.declarations_eq, List.filter_map, List.length_map,
    ← List.countP_eq_length_filter, Level.transforms, List.length_filterMap_eq_countP,
    ← l.map_parts_placedFrom 0, List.countP_map]
  refine List.countP_congr fun s _ => ?_
  rw [Function.comp_apply, Function.comp_apply, Segment.isSome_transform?_declaration]

/-- A piece of a segment has at least one character. -/
theorem Splits.text_ne_nil (h : Splits css l) {s : Segment} (hs : s ∈ l.placedFrom 0) :
    ∀ p ∈ s.parts, p.text ≠ [] := by
  intro p hp hnil
  have hmem : s.parts ∈ l.segments := by
    rw [← l.map_parts_placedFrom 0]
    exact List.mem_map_of_mem hs
  have hhead := l.head_mem_tokens s.parts hmem p hp
  rw [← h.tokens_eq] at hhead
  refine text_ne_nil_of_mem_tokens hhead ?_
  rw [Piece.text, Piece.tokens, textOf_cons, List.append_eq_nil_iff] at hnil
  exact hnil.1

theorem Splits.edits_eq (h : Splits css l) : edits convert keepWritten css =
    l.edits convert keepWritten 0 := by
  have hsegment : ∀ s ∈ l.placedFrom 0,
      s.declaration.edit? convert keepWritten css = s.edit? convert keepWritten := by
    intro s hs
    have hall : css = [] ++ (l.render partsText ++ []) := by rw [h.render_eq]; simp
    obtain ⟨before, after, hcss, hplace⟩ := l.exists_eq_append [] [] hall rfl s hs
    exact Segment.declaration_edit? hcss hplace (h.text_ne_nil hs)
  have hnone : ∀ d : Declaration, d.transform?.isSome = false →
      d.edit? convert keepWritten css = none := by
    intro d hd
    rw [Option.isSome_eq_false_iff, Option.isNone_iff_eq_none] at hd
    rw [Declaration.edit?, hd]
    rfl
  rw [edits, transforms, h.declarations_eq, List.filterMap_filter, List.filterMap_map, Level.edits]
  refine List.filterMap_congr fun s hs => ?_
  rw [Function.comp_apply, ← hsegment s hs]
  split
  · rfl
  · next hd => exact (hnone s.declaration (by simpa using hd)).symm

/-- A compiled sheet and its counts, by the level that the sheet is. -/
theorem Splits.compileWith_eq (h : Splits css l) : compileWith convert keepWritten css =
    ⟨l.render (compiledText convert keepWritten), l.transforms.countP (Written.isConverted convert),
      l.transforms.length - l.transforms.countP (Written.isConverted convert)⟩ := by
  have hcss := (@Level.replaces convert keepWritten l 0).editsInto.applyEdits
  rw [h.render_eq] at hcss
  rw [compileWith, h.edits_eq, hcss, h.length_transforms, Level.length_edits]

/-- **A compilation looks at exactly the `transform` declarations of the sheet.** Every sheet is a
level, and whatever level it is, the declarations that are counted are those of the level. The
converted ones are those whose value has a text with a conversion. The compiled sheet is the level
with the compiled text of every segment, so that nothing outside of segments is edited. -/
theorem compile_of_splits (settings : Settings) (henabled : settings.enabled = true)
    (css : List Char) :
    (∃ l, Splits css l) ∧ ∀ l, Splits css l →
      (compile settings css).converted + (compile settings css).unchanged = l.transforms.length ∧
      (compile settings css).converted =
        l.transforms.countP (Written.isConverted (CssTransform.convert settings.onInvalid)) ∧
      (compile settings css).css =
        l.render (compiledText (CssTransform.convert settings.onInvalid) settings.keepWritten) := by
  refine ⟨exists_splits css, fun l h => ?_⟩
  rw [compile, if_pos henabled, h.compileWith_eq]
  have hle := List.countP_le_length (p := Written.isConverted
    (CssTransform.convert settings.onInvalid)) (l := l.transforms)
  exact ⟨by dsimp only; omega, rfl, rfl⟩

/-- A rule with two declarations, of which one has no conversion. -/
theorem compile_of_splits_scale :
    (default : Settings).enabled = true ∧
      ∃ l, Splits "a{transform:scale(2);transform:none}".toList l ∧ l.transforms.length = 2 ∧
        l.transforms.countP (Written.isConverted (CssTransform.convert .skip)) = 1 := by
  obtain ⟨⟨l, hl⟩, hall⟩ :=
    compile_of_splits default rfl "a{transform:scale(2);transform:none}".toList
  obtain ⟨hlength, hcount, -⟩ := hall l hl
  have hcounts : (compile default "a{transform:scale(2);transform:none}".toList).converted = 1 ∧
      (compile default "a{transform:scale(2);transform:none}".toList).unchanged = 1 := by
    decide +kernel
  rw [hcounts.1, hcounts.2] at hlength
  rw [hcounts.1] at hcount
  exact ⟨rfl, l, hl, hlength.symm, hcount.symm⟩

end Stylesheet

end CssTransform
