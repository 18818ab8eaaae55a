import CssTransform.Proofs.Stylesheet.Phase
import CssTransform.Stylesheet

/-!
# The edit of one segment

A segment gives an edit if it is a `transform` declaration whose value has a conversion. Told by its
parts as they are written, the edit puts the conversion in place of the value, or puts a second
declaration after the importance mark, and leaves every other part of the segment as it is.

## Main definitions

* `Text.EditsInto` — edits that make one text of another, told by what applying them does
* `Text.Replaces` — the same, told by what is kept and what is replaced
* `Written.valueText`, `Written.markText` — what a declaration says
* `transformOf?` — the `transform` declaration that a segment is, if it is one
* `conversion?` — that declaration with the conversion of its value, if it has one
* `Segment.edit?`, `editText?` — the edit of a segment, and the text that it puts in
* `compiledText` — the text that it makes of the segment

## Main results

* `Text.Replaces.editsInto` — applying edits replaces what they are said to replace
* `Segment.declaration_edit?` — the edit of the declaration that a segment is
* `Segment.replaces` — the edit makes that text of the segment
-/

namespace CssTransform

/-! ### Edits that make one text of another -/

namespace Text

/-- Edits that make one text of another where it stands, whatever text and edits come after it. -/
structure EditsInto (place : Nat) (old new : List Char) (edits : List Edit) : Prop where
  within : ∀ e ∈ edits, place ≤ e.span.start ∧ e.span.start ≤ e.span.stop
  apply {later : List Edit} (rest : List Char)
    (hlater : ∀ e ∈ later,
      place + byteLength old ≤ e.span.start ∧ e.span.start ≤ e.span.stop) :
    applyEditsFrom place (old ++ rest) (edits ++ later) =
      new ++ applyEditsFrom (place + byteLength old) rest later

namespace EditsInto

variable {place : Nat} {s s' t t' : List Char} {es fs : List Edit}

/-- Without edits a text stays as it is. -/
theorem none (place : Nat) (s : List Char) : EditsInto place s s [] where
  within _ he := absurd he List.not_mem_nil
  apply rest hlater := applyEditsFrom_append rest hlater

/-- One edit of a whole text. -/
theorem one (place : Nat) (s s' : List Char) :
    EditsInto place s s' [⟨⟨place, place + byteLength s⟩, s'⟩] where
  within e he := by
    obtain rfl := List.mem_singleton.1 he
    exact ⟨Nat.le_refl _, Nat.le_add_right _ _⟩
  apply rest _ := applyEditsFrom_cons place s s' rest _

theorem append (h : EditsInto place s s' es) (ht : EditsInto (place + byteLength s) t t' fs) :
    EditsInto place (s ++ t) (s' ++ t') (es ++ fs) where
  within e he := by
    rcases List.mem_append.1 he with he | he
    · exact h.within e he
    · have := ht.within e he
      omega
  apply {later} rest hlater := by
    rw [byteLength_append, ← Nat.add_assoc] at hlater
    have hbehind : ∀ e ∈ fs ++ later,
        place + byteLength s ≤ e.span.start ∧ e.span.start ≤ e.span.stop := by
      intro e he
      rcases List.mem_append.1 he with he | he
      · exact ht.within e he
      · have := hlater e he
        omega
    rw [List.append_assoc, List.append_assoc, h.apply _ hbehind, ht.apply rest hlater,
      byteLength_append, List.append_assoc, Nat.add_assoc]

theorem applyEdits (h : EditsInto 0 s s' es) : Text.applyEdits s es = s' := by
  have happly := h.apply [] fun e he => absurd he List.not_mem_nil
  rw [List.append_nil, List.append_nil, applyEditsFrom, List.append_nil] at happly
  exact happly

end EditsInto

/-- What edits do to a text where it stands: each replaces one part of the text with its own, and
what stands before, between and after these parts is kept. -/
inductive Replaces : Nat → List Char → List Edit → List Char → Prop
  | none (place : Nat) (kept : List Char) : Replaces place kept [] kept
  | edit {place : Nat} {rest out : List Char} {e : Edit} {edits : List Edit}
      (kept old : List Char) (hstart : e.span.start = place + byteLength kept)
      (hstop : e.span.stop = e.span.start + byteLength old)
      (h : Replaces e.span.stop rest edits out) :
      Replaces place (kept ++ (old ++ rest)) (e :: edits) (kept ++ (e.text ++ out))

namespace Replaces

variable {place : Nat} {s s' t t' : List Char} {es fs : List Edit}

/-- One edit of a whole text. -/
theorem one (place : Nat) (s s' : List Char) :
    Replaces place s [⟨⟨place, place + byteLength s⟩, s'⟩] s' := by
  have hedit := @edit place [] [] ⟨⟨place, place + byteLength s⟩, s'⟩ [] [] s rfl rfl (none _ [])
  simpa using hedit

/-- More text in front of it is kept. -/
theorem prepend {behind : Nat} (front : List Char) (hbehind : behind = place + byteLength front)
    (h : Replaces behind s es s') : Replaces place (front ++ s) es (front ++ s') := by
  cases h with
  | none => exact none place _
  | edit kept old hstart hstop h =>
    rw [← List.append_assoc, ← List.append_assoc front kept]
    refine edit (front ++ kept) old ?_ hstop h
    rw [hstart, hbehind, byteLength_append, Nat.add_assoc]

theorem append (h : Replaces place s es s') (ht : Replaces (place + byteLength s) t fs t') :
    Replaces place (s ++ t) (es ++ fs) (s' ++ t') := by
  induction h with
  | none place kept => exact prepend kept rfl ht
  | @edit place _ _ _ _ kept old hstart hstop h ih =>
    rw [byteLength_append, byteLength_append, ← Nat.add_assoc, ← hstart, ← Nat.add_assoc,
      ← hstop] at ht
    simp only [List.append_assoc, List.cons_append]
    exact edit kept old hstart hstop (ih ht)

/-- **Applying edits replaces what they are said to replace**, and keeps the rest. -/
theorem editsInto (h : Replaces place s es s') : EditsInto place s s' es := by
  induction h with
  | none place kept => exact .none place kept
  | @edit place _ _ e _ kept old hstart hstop h ih =>
    obtain ⟨⟨start, stop⟩, new⟩ := e
    dsimp only at hstart hstop
    subst hstart hstop
    exact (EditsInto.none place kept).append ((EditsInto.one _ old new).append ih)

end Replaces

end Text

namespace Stylesheet

open Text (byteLength byteLength_append byteLength_eq_zero Replaces)

/-! ### Spans of the parts of a declaration -/

namespace Written

/-- The text of the value, its importance mark set aside. -/
def valueText (w : Written) : List Char := partsText w.value

/-- The text of the importance mark with what stands between it and the value. -/
def markText (w : Written) : List Char := partsText w.mark

/-- Space and comments at the end. -/
def tail (w : Written) : List Piece := (leadTrivia w.ending.reverse).reverse

theorem mark_append_tail (w : Written) : w.mark ++ w.tail = w.ending := by
  have h := congrArg List.reverse (leadTrivia_append_skipTrivia w.ending.reverse)
  rwa [List.reverse_append, List.reverse_reverse] at h

/-- Where the value of a declaration at a place starts. -/
def valueStart (place : Nat) (w : Written) : Nat :=
  place + byteLength (partsText w.lead) + byteLength (partsText w.head)

/-- Where the importance mark of a declaration at a place stops, or the value if there is none. -/
def markStop (place : Nat) (w : Written) : Nat :=
  w.valueStart place + byteLength w.valueText + byteLength w.markText

/-- The text of a declaration, part by part. -/
theorem partsText_parts (w : Written) :
    partsText w.parts = partsText w.lead ++ (partsText w.head ++ (w.valueText ++ (w.markText ++
      partsText w.tail))) := by
  rw [parts_eq, ← w.mark_append_tail]
  simp [valueText, markText]

theorem valueStart_eq (place : Nat) (w : Written) :
    w.valueStart place = Segment.colonStop place w + byteLength (partsText w.indent) := by
  simp [valueStart, head, Segment.colonStop, Nat.add_assoc]

section Of

variable {css before after : List Char} {place : Nat} (w : Written)
  (hcss : css = before ++ (partsText w.parts ++ after)) (hplace : place = byteLength before)

include hcss hplace

/-- The text of the property, found at its place. -/
theorem of_property :
    Span.of css ⟨place + byteLength (partsText w.lead),
      place + byteLength (partsText w.lead) + byteLength w.property.text⟩ = w.property.text := by
  refine Span.of_eq (before ++ partsText w.lead) w.property.text
    (partsText (w.gap ++ w.colon :: (w.indent ++ (w.value ++ w.ending))) ++ after) ?_ ?_ ?_
  · rw [hcss, parts]
    simp
  · rw [hplace, byteLength_append]
  · rw [hplace, byteLength_append]

/-- The text of the value, found at its place. -/
theorem of_value :
    Span.of css ⟨w.valueStart place, w.valueStart place + byteLength w.valueText⟩ =
      w.valueText := by
  refine Span.of_eq (before ++ (partsText w.lead ++ partsText w.head)) w.valueText
    (w.markText ++ (partsText w.tail ++ after)) ?_ ?_ ?_
  · rw [hcss, w.partsText_parts]
    simp
  · simp [valueStart, hplace, Nat.add_assoc]
  · simp [valueStart, hplace, Nat.add_assoc]

/-- The text of the importance mark, found at its place. -/
theorem of_mark :
    Span.of css ⟨w.valueStart place + byteLength w.valueText, w.markStop place⟩ = w.markText := by
  refine Span.of_eq (before ++ (partsText w.lead ++ (partsText w.head ++ w.valueText))) w.markText
    (partsText w.tail ++ after) ?_ ?_ ?_
  · rw [hcss, w.partsText_parts]
    simp
  · simp [valueStart, hplace, Nat.add_assoc]
  · simp [markStop, valueStart, hplace, Nat.add_assoc]

end Of

end Written

namespace Declaration

variable {w : Written} {name : List Char} {property : Span}

/-- The end of the last piece of a value and of its mark. -/
theorem Value.stop_ofParts (h : w.IsReading) (place : Nat) :
    (Value.ofParts name property (Segment.colonStop place w)
      (w.indent ++ (w.value ++ w.ending))).stop = w.markStop place := by
  rw [ofParts]
  dsimp only
  rw [h.skipTrivia_reverse, List.reverse_reverse, Written.markStop, Written.valueStart_eq]
  simp [Written.valueText, Written.markText, Nat.add_assoc]

theorem Value.important_ofParts (h : w.IsReading) (place : Nat) :
    ((Value.ofParts name property (Segment.colonStop place w)
      (w.indent ++ (w.value ++ w.ending))).important.getD
        (Value.ofParts name property (Segment.colonStop place w)
          (w.indent ++ (w.value ++ w.ending))).stop) =
      w.valueStart place + byteLength w.valueText := by
  have hbody := congrArg List.reverse h.back
  rw [List.reverse_reverse] at hbody
  rw [ofParts]
  dsimp only
  rw [Option.getD_map (fun behind : List Piece =>
    Segment.colonStop place w + byteLength (partsText behind.reverse))]
  show Segment.colonStop place w + byteLength (partsText (body _).reverse) = _
  rw [hbody, Written.valueStart_eq]
  simp [Written.valueText, Nat.add_assoc]

/-- The span that is converted, if the value has any text. -/
theorem Value.span_ofParts (h : w.IsReading) (place : Nat) :
    (Value.ofParts name property (Segment.colonStop place w)
      (w.indent ++ (w.value ++ w.ending))).span =
      if w.valueText = [] then none
      else some ⟨w.valueStart place, w.valueStart place + byteLength w.valueText⟩ := by
  rw [Value.span, Value.important_ofParts h]
  cases hall : (w.indent ++ (w.value ++ w.ending)).all Piece.isTrivia with
  | true =>
    have hvalue : w.value = [] := by
      have hfront := h.front
      rw [List.all_append, List.all_append, Bool.and_eq_true, Bool.and_eq_true] at hall
      have hnil := skipTrivia_append (List.all_eq_true.1 hall.2.1) []
      rw [List.append_nil, hfront] at hnil
      exact hnil
    have hstart : (Value.ofParts name property (Segment.colonStop place w)
        (w.indent ++ (w.value ++ w.ending))).start = none := by
      rw [ofParts, hall]
      rfl
    rw [hstart, if_pos (by rw [Written.valueText, hvalue]; rfl)]
  | false =>
    have hstart : (Value.ofParts name property (Segment.colonStop place w)
        (w.indent ++ (w.value ++ w.ending))).start =
          some (Segment.colonStop place w +
            byteLength (partsText (leadTrivia (w.indent ++ (w.value ++ w.ending))))) := by
      rw [ofParts, hall]
      rfl
    rw [hstart]
    dsimp only
    cases hvalue : w.value with
    | nil =>
      -- what the value starts with belongs to its mark
      have hlead : leadTrivia (w.indent ++ ([] ++ w.ending)) = w.indent ++ leadTrivia w.ending :=
        List.takeWhile_append_of_pos h.indent
      have hnil : w.valueText = [] := by rw [Written.valueText, hvalue]; rfl
      rw [hlead, hnil, if_pos rfl, if_neg]
      rw [Written.valueStart_eq, partsText_append, byteLength_append, Text.byteLength_nil]
      omega
    | cons q value =>
      have hq := isTrivia_of_skipTrivia_eq (hvalue ▸ h.front)
      have hlead : leadTrivia (w.indent ++ (q :: value ++ w.ending)) = w.indent :=
        leadTrivia_append h.indent hq _
      rw [hlead, ← Written.valueStart_eq]
      by_cases hnil : w.valueText = []
      · rw [if_pos hnil, hnil, Text.byteLength_nil, if_neg (by omega)]
      · have hpos : byteLength w.valueText ≠ 0 := fun hzero => hnil (byteLength_eq_zero.1 hzero)
        rw [if_neg hnil, if_pos (by omega)]

end Declaration

/-! ### The declaration of a segment -/

/-- The `transform` declaration that a segment is, if it is one. -/
def transformOf? (ps : List Piece) : Option Written :=
  (written? ps).filter fun w => w.property.head.text.map Char.toLower = propertyName

/-- The `transform` declaration that a segment is, with the conversion of its value, if there is
one. -/
def conversion? (convert : List Char → Option (List Char)) (ps : List Piece) :
    Option (Written × List Char) := do
  let w ← transformOf? ps
  if w.valueText = [] then none else return (w, ← convert w.valueText)

/-- The space that a segment begins with. -/
def indentText : List Piece → List Char
  | [] => []
  | p :: _ => if p.head.kind = .space then p.text else []

namespace Segment

variable {place : Nat} {ps : List Piece} {w : Written}

theorem transform?_declaration (place : Nat) (ps : List Piece) :
    (Segment.declaration ⟨place, ps⟩).transform? =
      (transformOf? ps).map fun w => .ofParts w.property.head.text
        ⟨place + byteLength (partsText w.lead),
          place + byteLength (partsText w.lead) + byteLength w.property.text⟩
        (colonStop place w) (w.indent ++ (w.value ++ w.ending)) := by
  rw [Declaration.transform?, transformOf?]
  cases hw : written? ps with
  | none =>
    have hphase := @phase_ne_value place ps hw
    split
    · next value hvalue => exact absurd hvalue (hphase value)
    · rfl
  | some w =>
    rw [phase_of_written? hw]
    dsimp only
    rw [Option.filter_some]
    split
    · next hname => rw [if_pos (by simpa [Declaration.Value.ofParts] using hname)]; rfl
    · next hname => rw [if_neg (by simpa [Declaration.Value.ofParts] using hname)]; rfl

theorem isSome_transform?_declaration (s : Segment) :
    s.declaration.transform?.isSome = (transformOf? s.parts).isSome := by
  rw [transform?_declaration s.place s.parts]
  simp

/-- The pieces of a segment leave its start where it is, and the end of the space that it begins
with once a piece has come. -/
theorem start_pushAll (d : Declaration) (ps : List Piece) (place : Nat) :
    (d.pushAll place ps).start = d.start ∧
      (d.start < place → (d.pushAll place ps).indentStop = d.indentStop) := by
  induction ps generalizing d place with
  | nil => exact ⟨rfl, fun _ => rfl⟩
  | cons p ps ih =>
    obtain ⟨hstart, hindent⟩ := ih (d.push p.head ⟨place, place + byteLength p.text⟩)
      (place + byteLength p.text)
    have hpush : (d.push p.head ⟨place, place + byteLength p.text⟩).start = d.start ∧
        (d.start < place →
          (d.push p.head ⟨place, place + byteLength p.text⟩).indentStop = d.indentStop) := by
      rw [Declaration.push]
      split
      · split
        · next heq => exact ⟨rfl, fun hlt => absurd heq (by simp only; omega)⟩
        · exact ⟨rfl, fun _ => rfl⟩
      · exact ⟨rfl, fun _ => rfl⟩
      · exact ⟨rfl, fun _ => rfl⟩
      · exact ⟨rfl, fun _ => rfl⟩
      · split <;> exact ⟨rfl, fun _ => rfl⟩
      · split <;> exact ⟨rfl, fun _ => rfl⟩
      · exact ⟨rfl, fun _ => rfl⟩
    rw [Declaration.pushAll]
    refine ⟨hstart.trans hpush.1, fun hlt => ?_⟩
    rw [hindent (by rw [hpush.1]; omega), hpush.2 hlt]

theorem indentStop_declaration (hps : ∀ p ∈ ps, p.text ≠ []) :
    (Segment.declaration ⟨place, ps⟩).indentStop = place + byteLength (indentText ps) := by
  cases ps with
  | nil => rfl
  | cons p ps =>
    have hpos : byteLength p.text ≠ 0 := fun h =>
      hps p List.mem_cons_self (byteLength_eq_zero.1 h)
    have hstart : ((Declaration.startingAt place).push p.head
        ⟨place, place + byteLength p.text⟩).start = place :=
      (start_pushAll (.startingAt place) [p] place).1
    have hlt : place < place + byteLength p.text := by omega
    rw [declaration, Declaration.pushAll, (start_pushAll _ ps _).2 (by rw [hstart]; exact hlt),
      Declaration.push, Declaration.startingAt, indentText]
    cases p.head.kind <;> simp

end Segment

/-! ### Its edit -/

section Edit

variable (convert : List Char → Option (List Char)) (keepWritten : Bool)

/-- A second declaration with another value, put after the first. -/
def Written.copyText (w : Written) (indent converted : List Char) : List Char :=
  ';' :: (indent ++ (partsText w.head ++ (converted ++ w.markText)))

/-- The edit of a segment, if it is a `transform` declaration whose value has a conversion. -/
def Segment.edit? (s : Segment) : Option Text.Edit :=
  (conversion? convert s.parts).map fun (w, converted) =>
    if keepWritten then
      ⟨⟨w.markStop s.place, w.markStop s.place⟩, w.copyText (indentText s.parts) converted⟩
    else ⟨⟨w.valueStart s.place, w.valueStart s.place + byteLength w.valueText⟩, converted⟩

/-- The text that the edit of a segment puts in. -/
def editText? (ps : List Piece) : Option (List Char) :=
  (conversion? convert ps).map fun (w, converted) =>
    if keepWritten then w.copyText (indentText ps) converted else converted

/-- The text that a segment is compiled to. Without a conversion it stays as it is. -/
def compiledText (ps : List Piece) : List Char :=
  match conversion? convert ps with
  | none => partsText ps
  | some (w, converted) =>
    if keepWritten then
      partsText w.lead ++ (partsText w.head ++ (w.valueText ++ (w.markText ++
        (w.copyText (indentText ps) converted ++ partsText w.tail))))
    else
      partsText w.lead ++ (partsText w.head ++ (converted ++ (w.markText ++ partsText w.tail)))

end Edit

variable {convert : List Char → Option (List Char)} {keepWritten : Bool}

theorem parts_of_transformOf? {ps : List Piece} {w : Written} (h : transformOf? ps = some w) :
    w.IsReading ∧ w.parts = ps :=
  isReading_of_written? (Option.eq_some_of_filter_eq_some h)

theorem name_of_transformOf? {ps : List Piece} {w : Written} (h : transformOf? ps = some w) :
    w.property.head.text.map Char.toLower = propertyName :=
  of_decide_eq_true (Option.filter_eq_some_iff.1 h).2

/-- A declaration whose property has the right name is a `transform` declaration. -/
theorem Written.IsReading.transformOf?_parts {w : Written} (h : w.IsReading)
    (hname : w.property.head.text.map Char.toLower = propertyName) :
    transformOf? w.parts = some w := by
  rw [transformOf?, h.written?_parts, Option.filter_some]
  exact if_pos (decide_eq_true hname)

theorem conversion?_of_transformOf? {ps : List Piece} {w : Written} (h : transformOf? ps = some w) :
    conversion? convert ps =
      if w.valueText = [] then none else (convert w.valueText).map (Prod.mk w) := by
  rw [conversion?, h]
  show (if w.valueText = [] then none else _) = _
  split
  · rfl
  · cases convert w.valueText <;> rfl

theorem transformOf?_of_conversion? {ps : List Piece} {w : Written} {converted : List Char}
    (h : conversion? convert ps = some (w, converted)) :
    transformOf? ps = some w ∧ w.valueText ≠ [] ∧ convert w.valueText = some converted := by
  rw [conversion?] at h
  cases hw : transformOf? ps with
  | none =>
    rw [hw] at h
    cases h
  | some w' =>
    rw [hw] at h
    change (if w'.valueText = [] then none else _) = _ at h
    split at h
    · cases h
    · next hne =>
      cases hconvert : convert w'.valueText with
      | none =>
        rw [hconvert] at h
        cases h
      | some text =>
        rw [hconvert] at h
        cases h
        exact ⟨rfl, hne, hconvert⟩

theorem exists_append_indentText (ps : List Piece) :
    ∃ rest, partsText ps = indentText ps ++ rest := by
  cases ps with
  | nil => exact ⟨[], rfl⟩
  | cons p ps =>
    rw [indentText]
    split
    · exact ⟨partsText ps, rfl⟩
    · exact ⟨partsText (p :: ps), rfl⟩

/-- The second declaration repeats the space, the property and the mark of the first. -/
theorem Segment.copyText_declaration {css before after : List Char} {place : Nat} {w : Written}
    {value : Declaration.Value} (hcss : css = before ++ (partsText w.parts ++ after))
    (hplace : place = byteLength before) (hparts : ∀ p ∈ w.parts, p.text ≠ [])
    (hproperty : value.property.start = place + byteLength (partsText w.lead))
    (hstop : value.stop = w.markStop place) (converted : List Char) :
    (Segment.declaration ⟨place, w.parts⟩).copyText css value
        ⟨w.valueStart place, w.valueStart place + byteLength w.valueText⟩ converted =
      w.copyText (indentText w.parts) converted := by
  have hstart : (Segment.declaration ⟨place, w.parts⟩).start = place := (start_pushAll _ _ _).1
  have hindent : Span.of css ⟨place, place + byteLength (indentText w.parts)⟩ =
      indentText w.parts := by
    obtain ⟨rest, hrest⟩ := exists_append_indentText w.parts
    refine Span.of_eq before (indentText w.parts) (rest ++ after) ?_ hplace (by rw [hplace])
    rw [hcss, hrest, List.append_assoc]
  have hhead : Span.of css ⟨place + byteLength (partsText w.lead), w.valueStart place⟩ =
      partsText w.head := by
    refine Span.of_eq (before ++ partsText w.lead) (partsText w.head)
      (w.valueText ++ (w.markText ++ (partsText w.tail ++ after))) ?_ ?_ ?_
    · rw [hcss, w.partsText_parts]
      simp
    · rw [hplace, byteLength_append]
    · rw [byteLength_append, Written.valueStart, hplace]
  rw [Declaration.copyText, Written.copyText,
    indentStop_declaration hparts, hstart, hproperty, hstop]
  dsimp only
  rw [hindent, hhead, w.of_mark hcss hplace]
  simp

/-- The edit of the declaration that a segment of a sheet is. -/
theorem Segment.declaration_edit? {css before after : List Char} {s : Segment}
    (hcss : css = before ++ (partsText s.parts ++ after)) (hplace : s.place = byteLength before)
    (hparts : ∀ p ∈ s.parts, p.text ≠ []) :
    s.declaration.edit? convert keepWritten css = s.edit? convert keepWritten := by
  obtain ⟨place, ps⟩ := s
  dsimp only at hcss hplace hparts
  rw [Declaration.edit?, Segment.edit?, conversion?, transform?_declaration]
  cases hw : transformOf? ps with
  | none => rfl
  | some w =>
    obtain ⟨hreading, rfl⟩ := parts_of_transformOf? hw
    rw [Option.map_some]
    simp only [bind, Option.bind]
    rw [Declaration.Value.span_ofParts hreading]
    by_cases hnil : w.valueText = []
    · rw [if_pos hnil, if_pos hnil]
      rfl
    · rw [if_neg hnil, if_neg hnil]
      dsimp only
      rw [w.of_value hcss hplace]
      cases convert w.valueText with
      | none => rfl
      | some converted =>
        dsimp only
        rw [copyText_declaration hcss hplace hparts rfl (Declaration.Value.stop_ofParts hreading _),
          Declaration.Value.stop_ofParts hreading]
        rfl

/-- **The edit of a segment makes its compiled text of it.** -/
theorem Segment.replaces (convert : List Char → Option (List Char)) (keepWritten : Bool)
    (s : Segment) :
    Replaces s.place (partsText s.parts) (s.edit? convert keepWritten).toList
      (compiledText convert keepWritten s.parts) := by
  obtain ⟨place, ps⟩ := s
  rw [edit?, compiledText]
  cases hconversion : conversion? convert ps with
  | none => exact .none place _
  | some pair =>
    obtain ⟨w, converted⟩ := pair
    obtain ⟨-, rfl⟩ := parts_of_transformOf? (transformOf?_of_conversion? hconversion).1
    dsimp only [Option.map_some, Option.toList_some]
    rw [w.partsText_parts]
    cases keepWritten with
    | true =>
      have hfront : w.markStop place = place + byteLength
          (partsText w.lead ++ (partsText w.head ++ (w.valueText ++ w.markText))) := by
        simp [Written.markStop, Written.valueStart, Nat.add_assoc]
      have hcopy := (Replaces.one (w.markStop place) []
        (w.copyText (indentText w.parts) converted)).append (.none _ (partsText w.tail))
      simpa using hcopy.prepend _ hfront
    | false =>
      have hfront :
          w.valueStart place = place + byteLength (partsText w.lead ++ partsText w.head) := by
        simp [Written.valueStart, Nat.add_assoc]
      have hvalue := (Replaces.one (w.valueStart place) w.valueText converted).append
        (.none _ (w.markText ++ partsText w.tail))
      simpa using hvalue.prepend _ hfront

end Stylesheet

end CssTransform
