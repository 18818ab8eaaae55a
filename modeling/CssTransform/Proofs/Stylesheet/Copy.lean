import CssTransform.Proofs.Stylesheet.Visit

/-!
# Added declarations

With `keepWritten` a compilation puts a second declaration after each one that has a conversion, and
takes nothing away. The second declaration stands right after the value and its importance mark,
with a semicolon in front. So it is a declaration of its own if that semicolon is a token of its own
and stands in no open block. Then the segment falls into two, and a walk meets the second
declaration right after the first one.

## Which choice is load-bearing

Space and comments behind the value stay where they are, and become the end of the second
declaration. Of all that stands behind the first one only the semicolon is seen, so what was cut
into tokens there before does not matter.

A string that the end of a line cuts off goes on over a semicolon, and so does a block, a string or
an address that is open at the end of the sheet. There the added text becomes a part of the value.

## Main definitions

* `Text.Inserted` — a text with other texts put in
* `Written.IsClosed` — a declaration that a semicolon right behind its value and mark would end
* `copied` — a segment and the declaration that is added to it
* `readings` — everything that a walk over a sheet meets, with what it says
* `Visit.withCopy` — a declaration with the one that is added to it

## Main results

* `Splits.copied` — the level of a compiled sheet
* `readings_compile` — what a walk over a compiled sheet meets
-/

namespace CssTransform

/-! ### Texts with other texts put in -/

namespace Text

/-- The last text is the one before it with some texts put in, in order. -/
inductive Inserted : List (List Char) → List Char → List Char → Prop
  | rest (s : List Char) : Inserted [] s s
  | put (before text : List Char) {texts : List (List Char)} {s s' : List Char}
      (h : Inserted texts s s') : Inserted (text :: texts) (before ++ s) (before ++ (text ++ s'))

namespace Inserted

variable {texts texts' : List (List Char)} {s s' t t' : List Char}

theorem behind (h : Inserted texts s s') (before : List Char) :
    Inserted texts (before ++ s) (before ++ s') := by
  cases h with
  | rest s => exact .rest _
  | put front text h =>
    rw [← List.append_assoc, ← List.append_assoc]
    exact .put _ text h

theorem append (h : Inserted texts s s') (h' : Inserted texts' t t') :
    Inserted (texts ++ texts') (s ++ t) (s' ++ t') := by
  induction h with
  | rest s => exact h'.behind s
  | put before text h ih =>
    rw [List.append_assoc, List.append_assoc, List.append_assoc]
    exact .put before text ih

/-- One text put in. -/
theorem one (before text after : List Char) :
    Inserted [text] (before ++ after) (before ++ (text ++ after)) := .put before text (.rest after)

end Inserted

end Text

namespace Stylesheet

open Text (byteLength Inserted)

variable {convert : List Char → Option (List Char)}

/-- The edit of a segment that is kept puts in its text and takes nothing away. -/
theorem inserted_compiledText (convert : List Char → Option (List Char)) (ps : List Piece) :
    Inserted (editText? convert true ps).toList (partsText ps) (compiledText convert true ps) := by
  rw [editText?, compiledText]
  cases h : conversion? convert ps with
  | none => exact .rest _
  | some pair =>
    obtain ⟨w, s⟩ := pair
    obtain ⟨-, rfl⟩ := parts_of_transformOf? (transformOf?_of_conversion? h).1
    have hone := Inserted.one
      (partsText w.lead ++ (partsText w.head ++ (w.valueText ++ w.markText)))
      (w.copyText (indentText w.parts) s) (partsText w.tail)
    rw [w.partsText_parts]
    simpa using hone

/-- The edits of a level put in their texts and take nothing away. -/
theorem Level.inserted (convert : List Char → Option (List Char)) (l : Level) :
    Inserted (l.segments.flatMap fun ps => (editText? convert true ps).toList)
      (l.render partsText) (l.render (compiledText convert true)) := by
  induction l with
  | last parts =>
    rw [segments, List.flatMap_singleton]
    exact inserted_compiledText convert parts
  | next parts mark rest ih =>
    exact (inserted_compiledText convert parts).append (ih.behind mark.text)
  | block front opener inside closer rest ihinside ihrest =>
    rw [segments, List.flatMap_append]
    exact ((ihinside.append (ihrest.behind closer.text)).behind opener.text).behind _
  | openBlock front opener inside ih => exact (ih.behind opener.text).behind _
  | deepBlock front piece rest ih => exact (ih.behind piece.text).behind _

/-- A compilation that keeps the written declarations takes nothing away. -/
theorem Splits.inserted {css : List Char} {l : Level} (h : Splits css l) :
    Inserted ((edits convert true css).map Text.Edit.text) css
      (compileWith convert true css).css := by
  have hinserted := l.inserted convert
  rw [h.render_eq, ← List.filterMap_eq_flatMap_toList] at hinserted
  rw [h.edits_eq, Level.map_text_edits, h.compileWith_eq]
  exact hinserted

/-! ### The two declarations -/

namespace Written

variable {w : Written}

/-- A declaration without the space and comments at its end. -/
def trimmed (w : Written) : Written := { w with ending := w.mark }

/-- A second declaration with another value, by the space that it begins with. -/
def copy (w : Written) (lead : List Piece) (q : Piece) : Written := { w.replace q with lead }

theorem mark_trimmed (w : Written) : w.trimmed.mark = w.mark := by
  rw [trimmed, mark, mark, List.reverse_reverse, skipTrivia_skipTrivia]

theorem visit_trimmed (w : Written) : w.trimmed.visit = w.visit := by
  rw [visit, visit, markText, mark_trimmed]
  rfl

theorem visit_copy {s : List Char} (w : Written) (lead : List Piece) (h : StandsAlone s) :
    (w.copy lead (pieceOf s)).visit = { w.visit with value := s } :=
  congrArg (Visit.mk w.property.text · w.markText) (w.valueText_replace h)

theorem IsReading.trimmed (h : w.IsReading) : w.trimmed.IsReading where
  lead := h.lead
  property := h.property
  gap := h.gap
  colon := h.colon
  indent := h.indent
  front := h.front
  back := by
    show body (w.indent ++ (w.value ++ w.mark)).reverse = (w.indent ++ w.value).reverse
    rw [← h.skipTrivia_reverse, body_skipTrivia, h.back]

theorem IsReading.copy (h : w.IsReading) {lead : List Piece} {q : Piece}
    (hlead : ∀ p ∈ lead, p.isTrivia = true) (htrivia : q.isTrivia = false)
    (hq : q.isImportant = false) : (w.copy lead q).IsReading :=
  { h.replace htrivia hq with lead := hlead }

/-- A declaration that a semicolon right behind its value and mark would end: its value is made of
whole pieces, and the semicolon is a token of its own. -/
structure IsClosed (w : Written) : Prop where
  isWhole : ∀ p ∈ w.value, p.IsWhole
  tokens_eq : tokens (w.valueText ++ (w.markText ++ [';'])) =
    tokensOf (w.value ++ w.mark) ++ [.semicolon]

/-- What stands behind the semicolon does not matter. -/
theorem IsClosed.scanned (h : w.IsClosed) (z : List Char) :
    Scanned (tokensOf w.value ++ tokensOf w.mark) (';' :: z) := by
  have hscanned := scanned_tokens (w.valueText ++ (w.markText ++ [';']))
  rw [h.tokens_eq, tokensOf_append] at hscanned
  exact hscanned.of_append.1.of_sameToStop (.inr ⟨[], ';', [], z, .inr (.inl rfl), rfl, rfl⟩)

end Written

/-- The space that a segment begins with. -/
def indentPieces : List Piece → List Piece
  | [] => []
  | p :: _ => if p.head.kind = .space then [p] else []

theorem partsText_indentPieces (ps : List Piece) :
    partsText (indentPieces ps) = indentText ps := by
  cases ps with
  | nil => rfl
  | cons p ps =>
    rw [indentPieces, indentText]
    split <;> simp

theorem mem_of_mem_indentPieces {ps : List Piece} {p : Piece} (h : p ∈ indentPieces ps) :
    p ∈ ps ∧ p.isTrivia = true := by
  cases ps with
  | nil => cases h
  | cons q ps =>
    rw [indentPieces] at h
    split at h
    · next hspace =>
      obtain rfl := List.mem_singleton.1 h
      exact ⟨List.mem_cons_self, by rw [Piece.isTrivia, hspace]; rfl⟩
    · cases h

/-- The space is the same in front of anything that begins with no blank. -/
theorem scanned_indentPieces {ps : List Piece} (hps : ∀ p ∈ ps, IsPiece p) {y z : List Char}
    (h : Scanned (tokensOf ps) y) (hz : ∀ d ∈ z.head?, isBlank d = false) :
    Scanned (tokensOf (indentPieces ps)) z := by
  cases ps with
  | nil => exact .nil
  | cons p ps =>
    rw [indentPieces]
    split
    · next hspace =>
      have htokens := (hps p List.mem_cons_self).tokens_eq (by rw [hspace]; rfl)
      rw [tokensOf_cons, htokens] at h
      rw [tokensOf_cons, htokens]
      exact .cons (h.of_cons.1.of_space hspace hz) .nil
    · exact .nil

/-- A segment and the declaration that is added to it. -/
def copied (convert : List Char → Option (List Char)) (ps : List Piece) : Filling :=
  match conversion? convert ps with
  | none => .one ps
  | some (w, s) => .two w.trimmed.parts (w.copy (indentPieces ps) (pieceOf s)).parts

section Copied

variable {ps : List Piece} {w : Written} {s : List Char}

/-- The text of the two is the compiled text. -/
theorem render_copied (hconvert : ∀ v s, convert v = some s → StandsAlone s) (ps : List Piece) :
    (copied convert ps).render partsText = compiledText convert true ps := by
  rw [copied, compiledText]
  cases h : conversion? convert ps with
  | none => rfl
  | some pair =>
    obtain ⟨w, s⟩ := pair
    have hs := (hconvert _ _ (transformOf?_of_conversion? h).2.2).text
    have hending := congrArg partsText w.mark_append_tail
    rw [partsText_append] at hending
    dsimp only
    rw [if_pos rfl, Filling.render, Written.parts_eq, Written.parts_eq]
    simp [Written.trimmed, Written.copy, Written.replace, Written.copyText, Written.head,
      Written.valueText, Written.markText, partsText_indentPieces, hs, ← hending]

/-- The second declaration is made of tokens, whatever stands in front of it. -/
theorem scanned_copy (hconvert : ∀ v s, convert v = some s → StandsAlone s)
    (hps : ∀ p ∈ ps, IsPiece p) (h : conversion? convert ps = some (w, s)) {y y' : List Char}
    (hy : SameToStop y y') (hscanned : Scanned (tokensOf ps) y) :
    Scanned (tokensOf (w.copy (indentPieces ps) (pieceOf s)).parts) y' := by
  obtain ⟨hw, rfl⟩ := parts_of_transformOf? (transformOf?_of_conversion? h).1
  have hkind : (w.replace (pieceOf s)).property.head.kind ≠ .space := by
    obtain ⟨name, hname⟩ := hw.property
    show w.property.head.kind ≠ .space
    rw [hname]
    simp
  have hreplaced := (Exchange.replaced hconvert hps h).scanned hy hscanned
  rw [Written.parts, tokensOf_append] at hreplaced
  have hrest := hreplaced.of_append.2
  rw [Written.parts, tokensOf_append]
  refine Scanned.append (scanned_indentPieces hps hscanned ?_) hrest
  rw [tokensOf_cons, Piece.tokens] at hrest ⊢
  exact hrest.isBlank_head hkind

/-- A value with a text begins with no blank. -/
theorem Written.IsReading.isBlank_head (h : w.IsReading) (hne : w.valueText ≠ [])
    {ts : List Token} {y : List Char} (hscanned : Scanned (tokensOf w.value ++ ts) y) :
    ∀ d ∈ (textOf (tokensOf w.value ++ ts) ++ y).head?, isBlank d = false := by
  cases hvalue : w.value with
  | nil => exact absurd (congrArg partsText hvalue) hne
  | cons p value =>
    have hp := isTrivia_of_skipTrivia_eq (hvalue ▸ h.front)
    have hkind : p.head.kind ≠ .space := fun hspace => by
      rw [Piece.isTrivia, hspace] at hp
      cases hp
    rw [hvalue, tokensOf_cons, Piece.tokens] at hscanned
    rw [tokensOf_cons, Piece.tokens]
    exact hscanned.isBlank_head hkind

/-- The two declarations can stand in place of the first, if that is closed. -/
theorem exchange_copied (hconvert : ∀ v s, convert v = some s → StandsAlone s)
    (hps : ∀ p ∈ ps, IsPiece p) (h : conversion? convert ps = some (w, s)) (hclosed : w.IsClosed) :
    Exchange (tokensOf ps) (copied convert ps).tokens := by
  obtain ⟨htransform, hne, -⟩ := transformOf?_of_conversion? h
  obtain ⟨hw, rfl⟩ := parts_of_transformOf? htransform
  have hcolon := hw.tokens_colon hps
  have hcopied : (copied convert w.parts).tokens =
      tokensOf (w.lead ++ w.property :: w.gap) ++ w.colon.head :: (tokensOf w.indent ++
        (tokensOf w.value ++ (tokensOf w.mark ++
          .semicolon :: tokensOf (w.copy (indentPieces w.parts) (pieceOf s)).parts))) := by
    rw [copied, h]
    dsimp only
    rw [Filling.tokens, w.trimmed.tokensOf_parts hcolon]
    simp [Written.trimmed]
  have hparts := w.tokensOf_parts hcolon
  have hcopy := fun {y y'} => @scanned_copy convert w.parts w s hconvert hps h y y'
  rw [hparts] at hcopy
  rw [hcopied, hparts]
  refine .of_colon hw.colon fun {_ y'} hy hscanned => ?_
  obtain ⟨hindent, hrest⟩ := hscanned.of_append.2.of_cons.2.of_append
  -- the value and its mark see nothing behind the semicolon
  have hvalue := (hclosed.scanned _).append (.cons (Token.begins_semicolon _) (hcopy hy hscanned))
  rw [List.append_assoc] at hvalue
  have hne' : partsText w.value ≠ [] := hne
  exact (hindent.of_trivia (hw.isTrivia_indent hps) (by simp [hne'])
    (hw.isBlank_head hne hvalue)).append hvalue

/-- The two declarations fit, if the first is closed. -/
theorem fits_copied (hconvert : ∀ v s, convert v = some s → StandsAlone s)
    (hps : ∀ p ∈ ps, IsPiece p)
    (hclosed : ∀ w s, conversion? convert ps = some (w, s) → w.IsClosed) :
    (copied convert ps).Fits ps := by
  cases h : conversion? convert ps with
  | none =>
    rw [copied, h]
    exact .same
  | some pair =>
    obtain ⟨w, s⟩ := pair
    have hw := parts_of_transformOf? (transformOf?_of_conversion? h).1
    refine .exchanged (fun qs hqs => ?_) (exchange_copied hconvert hps h (hclosed w s h))
    rw [copied, h] at hqs
    rcases List.mem_cons.1 hqs with rfl | hqs
    · refine hw.1.trimmed.areParts (fun p hp => hps p ?_) (hclosed w s h).isWhole
      rw [Written.parts_eq, Written.trimmed] at hp
      rw [← hw.2, Written.parts_eq, ← w.mark_append_tail]
      simp only [List.mem_append] at hp ⊢
      tauto
    · rw [List.mem_singleton.1 hqs]
      intro p hp
      rw [Written.parts, List.mem_append] at hp
      rcases hp with hp | hp
      · obtain ⟨hmem, htrivia⟩ := mem_of_mem_indentPieces hp
        exact ⟨(hps p hmem).1, (hps p hmem).isWhole (Piece.opened_of_isTrivia htrivia)⟩
      · exact areParts_replaced hconvert hps h p (List.mem_append_right _ hp)

end Copied

/-! ### Compiled sheets -/

section Compiled

variable {css : List Char} {l : Level}

/-- **The level of a sheet with added declarations** is that of the sheet, with two segments in the
place of each that has a conversion. -/
theorem Splits.copied (hconvert : ∀ v s, convert v = some s → StandsAlone s) (h : Splits css l)
    (hclosed : ∀ w ∈ l.transforms, w.isConverted convert = true → w.IsClosed) :
    Splits (compileWith convert true css).css (l.expand (copied convert)) := by
  have htext : (fun ps => (Stylesheet.copied convert ps).render partsText) =
      compiledText convert true := funext (render_copied hconvert)
  rw [h.compileWith_eq, ← htext]
  refine h.expand rfl fun ps hps => fits_copied hconvert (h.isSplit.isPiece ps hps) ?_
  intro w s hconversion
  obtain ⟨htransform, hne, hs⟩ := transformOf?_of_conversion? hconversion
  refine hclosed w (List.mem_filterMap.2 ⟨ps, hps, htransform⟩) ?_
  rw [Written.isConverted, decide_eq_true hne, hs]
  rfl

/-! ### Readings -/

/-- The value of a declaration, if it is one. -/
def Declaration.value? (d : Declaration) : Option Declaration.Value :=
  match d.phase with
  | .value value => some value
  | _ => none

/-- Everything that a walk over a sheet meets: the blocks that it enters and leaves, and what stands
in them, with what it says if it is a declaration. -/
def readings (css : List Char) : List (Event (Option Visit)) :=
  (tour css).map (Event.map fun d => d.value?.map (Declaration.Value.visit css))

/-- What a segment says, if it is a declaration. -/
def reading? (ps : List Piece) : Option Visit := (written? ps).map Written.visit

/-- What the declaration that a segment of a sheet is says. -/
theorem Segment.value?_declaration {before after : List Char} {s : Segment}
    (hcss : css = before ++ (partsText s.parts ++ after)) (hplace : s.place = byteLength before) :
    s.declaration.value?.map (Declaration.Value.visit css) = reading? s.parts := by
  obtain ⟨place, ps⟩ := s
  dsimp only at hcss hplace
  rw [Declaration.value?, reading?]
  cases hw : written? ps with
  | none =>
    have hphase := @phase_ne_value place ps hw
    split
    · next value hvalue => exact absurd hvalue (hphase value)
    · rfl
  | some w =>
    rw [phase_of_written? hw]
    obtain ⟨hreading, rfl⟩ := isReading_of_written? hw
    exact congrArg some (hreading.visit_ofParts hcss hplace)

/-- The readings of a sheet are those of its level. -/
theorem Splits.readings_eq (h : Splits css l) : readings css = l.events.map (Event.map reading?) :=
  h.map_tour_eq _ _ fun _ _ _ hcss hplace => Segment.value?_declaration hcss hplace

/-- A declaration with the one that is added to it, if it is a `transform` declaration whose value
has a conversion. -/
def Visit.withCopy (convert : List Char → Option (List Char)) (v : Visit) : List Visit :=
  if v.property.map Char.toLower = propertyName then
    v :: ((convert v.value).map fun value => { v with value }).toList
  else [v]

/-- What stands in the place of something that a walk meets. -/
def readingsWithCopy (convert : List Char → Option (List Char)) :
    Option Visit → List (Option Visit)
  | none => [none]
  | some v => (v.withCopy convert).map some

theorem Written.IsReading.reading?_parts {w : Written} (h : w.IsReading) :
    reading? w.parts = some w.visit := by
  rw [reading?, h.written?_parts]
  rfl

theorem Written.IsReading.property_visit {w : Written} (h : w.IsReading)
    (hparts : ∀ p ∈ w.parts, IsPiece p) : w.visit.property = w.property.head.text := by
  obtain ⟨name, hname⟩ := h.property
  have hproperty := (hparts w.property (by simp [parts])).tokens_eq (by rw [hname]; rfl)
  show textOf w.property.tokens = _
  rw [hproperty]
  exact List.append_nil _

/-- A declaration without a conversion gets no second one. -/
theorem Visit.withCopy_of_conversion? (hnil : convert [] = none) {w : Written} (hw : w.IsReading)
    (hparts : ∀ p ∈ w.parts, IsPiece p) (h : conversion? convert w.parts = none) :
    w.visit.withCopy convert = [w.visit] := by
  rw [withCopy, hw.property_visit hparts]
  split
  · next hname =>
    have hnone : convert w.valueText = none := by
      rw [conversion?_of_transformOf? (hw.transformOf?_parts hname)] at h
      split at h
      · next hempty => rwa [hempty]
      · exact Option.map_eq_none_iff.1 h
    have hvalue : convert w.visit.value = none := hnone
    rw [hvalue]
    rfl
  · rfl

/-- The two declarations say the same, but for the value. -/
theorem map_reading?_copied (hconvert : ∀ v s, convert v = some s → StandsAlone s)
    (hnil : convert [] = none) {ps : List Piece} (hps : ∀ p ∈ ps, IsPiece p) :
    (copied convert ps).segments.map reading? = readingsWithCopy convert (reading? ps) := by
  cases h : conversion? convert ps with
  | none =>
    rw [copied, h]
    cases hw : written? ps with
    | none =>
      have hreading : reading? ps = none := by rw [reading?, hw]; rfl
      rw [hreading]
      exact congrArg (fun reading => [reading]) hreading
    | some w =>
      obtain ⟨hreading, rfl⟩ := isReading_of_written? hw
      rw [hreading.reading?_parts, readingsWithCopy,
        Visit.withCopy_of_conversion? hnil hreading hps h]
      exact congrArg (fun reading => [reading]) hreading.reading?_parts
  | some pair =>
    obtain ⟨w, s⟩ := pair
    obtain ⟨htransform, -, hs⟩ := transformOf?_of_conversion? h
    have hname := name_of_transformOf? htransform
    obtain ⟨hw, rfl⟩ := parts_of_transformOf? htransform
    have halone := hconvert _ _ hs
    have hlead : ∀ p ∈ indentPieces w.parts, p.isTrivia = true :=
      fun p hp => (mem_of_mem_indentPieces hp).2
    have hcopy := (hw.copy hlead halone.isTrivia halone.isImportant).reading?_parts
    rw [w.visit_copy _ halone] at hcopy
    have hproperty : w.visit.property.map Char.toLower = propertyName := by
      rw [hw.property_visit hps, hname]
    have hvalue : convert w.visit.value = some s := hs
    rw [hw.reading?_parts, readingsWithCopy, Visit.withCopy, if_pos hproperty, hvalue, copied, h]
    show [reading? w.trimmed.parts, reading? (w.copy (indentPieces w.parts) (pieceOf s)).parts] = _
    rw [hw.trimmed.reading?_parts, w.visit_trimmed, hcopy]
    rfl

/-- What a walk over a sheet with added declarations meets. -/
theorem Splits.readings_compileWith (hconvert : ∀ v s, convert v = some s → StandsAlone s)
    (hnil : convert [] = none) (h : Splits css l)
    (hclosed : ∀ w ∈ l.transforms, w.isConverted convert = true → w.IsClosed) :
    readings (compileWith convert true css).css =
      (readings css).flatMap (Event.expand (readingsWithCopy convert)) := by
  rw [(h.copied hconvert hclosed).readings_eq, h.readings_eq, Level.events_expand,
    List.map_flatMap, List.flatMap_map]
  refine List.flatMap_congr fun event hevent => ?_
  cases event with
  | entered => rfl
  | left => rfl
  | declared ps =>
    have hps : ps ∈ l.segments := by
      rw [← l.filterMap_declared?_events]
      exact List.mem_filterMap.2 ⟨_, hevent, rfl⟩
    have hreadings := map_reading?_copied hconvert hnil (h.isSplit.isPiece ps hps)
    show (((Stylesheet.copied convert ps).segments.map Event.declared).map (Event.map reading?)) =
      (readingsWithCopy convert (reading? ps)).map Event.declared
    rw [← hreadings, List.map_map, List.map_map]
    rfl

end Compiled

/-- **Added declarations.** A compilation that keeps the written declarations takes nothing away:
the compiled sheet is the sheet with the texts of the edits put in. If the declarations that are
converted are closed, a walk over the compiled sheet meets all that it meets in the sheet, and right
after each `transform` declaration with a conversion one more, with the same property and the same
importance mark, and with the conversion for its value. -/
theorem readings_compile (settings : Settings) (henabled : settings.enabled = true)
    (hkeep : settings.keepWritten = true) (css : List Char) :
    Inserted ((edits (CssTransform.convert settings.onInvalid) true css).map Text.Edit.text) css
        (compile settings css).css ∧
      (∃ l, Splits css l) ∧ ∀ l, Splits css l →
        (∀ w ∈ l.transforms,
          w.isConverted (CssTransform.convert settings.onInvalid) = true → w.IsClosed) →
        readings (compile settings css).css = (readings css).flatMap
          (Event.expand (readingsWithCopy (CssTransform.convert settings.onInvalid))) := by
  have hcompile : compile settings css =
      compileWith (CssTransform.convert settings.onInvalid) true css := by
    rw [compile, if_pos henabled, hkeep]
  rw [hcompile]
  refine ⟨?_, exists_splits css, fun l hl hclosed => ?_⟩
  · obtain ⟨l, hl⟩ := exists_splits css
    exact hl.inserted
  · exact hl.readings_compileWith (fun v s hs => standsAlone_of_convert hs) (convert_nil _) hclosed

/-- The settings with which written declarations are kept. -/
def keeping : Settings := { (default : Settings) with keepWritten := true }

/-- `transform:scale(2)`, part by part. -/
def scaleTwo : Written where
  lead := []
  property := ⟨⟨.ident "transform".toList, "transform".toList⟩, []⟩
  gap := []
  colon := ⟨⟨.colon, [':']⟩, []⟩
  indent := []
  value := [⟨⟨.function "scale".toList, "scale(".toList⟩,
    [⟨.number, ['2']⟩] ++ [⟨.closing .round, [')']⟩]⟩]
  ending := []

/-- A rule with one declaration. -/
def ruleLevel (w : Written) : Level :=
  .block [⟨⟨.ident ['a'], ['a']⟩, []⟩] ⟨.opening .curly, ['\x7b']⟩ (.last w.parts)
    ⟨.closing .curly, ['\x7d']⟩ (.last [])

theorem splits_scaleTwo : Splits "a{transform:scale(2)}".toList (ruleLevel scaleTwo) where
  isSplit := by
    have htoken : ∀ {t : Token}, t.kind.opened = none → Piece.IsWhole ⟨t, []⟩ := .token
    refine .block (.cons ⟨?_, ?_, ?_⟩ (htoken rfl) .nil) rfl (by decide) (.last ?_) rfl (.last .nil)
    rotate_right
    · refine .cons ⟨?_, ?_, ?_⟩ (htoken rfl) (.cons ⟨?_, ?_, ?_⟩ (htoken rfl)
        (.cons ⟨?_, ?_, ?_⟩ (.block rfl (.token rfl ?_ .nil) rfl) .nil))
      all_goals decide
    all_goals decide
  tokens_eq := by decide +kernel

/-- A rule with one declaration. -/
theorem readings_compile_scale :
    keeping.enabled = true ∧ keeping.keepWritten = true ∧
      readings (compile keeping "a{transform:scale(2)}".toList).css =
        [.entered,
          .declared (some ⟨"transform".toList, "scale(2)".toList, []⟩),
          .declared (some ⟨"transform".toList,
            "matrix3d(2, 0, 0, 0, 0, 2, 0, 0, 0, 0, 1, 0, 0, 0, 0, 1)".toList, []⟩),
          .left,
          .declared none] := by
  have htransforms : (ruleLevel scaleTwo).transforms = [scaleTwo] := by decide +kernel
  have hclosed : scaleTwo.IsClosed := by
    refine ⟨fun p hp => ?_, by decide +kernel⟩
    rw [List.mem_singleton.1 hp]
    exact .block rfl (.token rfl (by decide) .nil) rfl
  obtain ⟨-, -, hall⟩ := readings_compile keeping rfl rfl "a{transform:scale(2)}".toList
  refine ⟨rfl, rfl, (hall _ splits_scaleTwo fun w hw _ => ?_).trans (by decide +kernel)⟩
  rw [htransforms] at hw
  rw [List.mem_singleton.1 hw]
  exact hclosed

/-- A string that the end of a line cuts off takes up what is added. -/
theorem readings_compile_string :
    readings "a\x7btransform:scale(2) \"b\n;c:d\x7d".toList =
        [.entered,
          .declared (some ⟨"transform".toList, "scale(2) \"b".toList, []⟩),
          .declared (some ⟨"c".toList, "d".toList, []⟩),
          .left,
          .declared none] ∧
      CssTransform.convert keeping.onInvalid "scale(2) \"b".toList =
        some "matrix3d(2, 0, 0, 0, 0, 2, 0, 0, 0, 0, 1, 0, 0, 0, 0, 1)".toList ∧
      readings (compile keeping "a\x7btransform:scale(2) \"b\n;c:d\x7d".toList).css =
        [.entered,
          .declared (some ⟨"transform".toList, "scale(2) \"b;transform:".toList ++
            "matrix3d(2, 0, 0, 0, 0, 2, 0, 0, 0, 0, 1, 0, 0, 0, 0, 1)".toList, []⟩),
          .declared (some ⟨"c".toList, "d".toList, []⟩),
          .left,
          .declared none] := by
  refine ⟨?_, ?_, ?_⟩ <;> decide +kernel

end Stylesheet

end CssTransform
