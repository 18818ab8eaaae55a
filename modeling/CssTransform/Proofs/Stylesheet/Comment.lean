import CssTransform.Proofs.Stylesheet.Compile
import CssTransform.Proofs.Stylesheet.Kinds
import CssTransform.Proofs.Stylesheet.Scanned
import CssTransform.Proofs.Value.Comment

/-!
# Comments in the values of a sheet

A comment in a value is one token of the sheet, whatever is written in it, so another text in it
leaves all other tokens and the declarations as they are. The value itself is then read without
regard to tokens, and the comment is a part of its text. It has no say as long as it holds no
parenthesis and does not stand directly inside of a call, where its words are arguments.

## Which choice is load-bearing

Where the comment stands is told by the spans that the compiler itself works with. The tokens that
make up the value are found by counting bytes, since every token has at least one.

## Main definitions

* `commentText` — the text of a comment
* `HasComment` — a comment in the value of a `transform` declaration

## Main results

* `tokens_comment` — another text in a comment
* `compile_comment` — a compilation with another text in a comment
-/

namespace CssTransform

namespace Stylesheet

open Text (byteLength)

/-! ### The tokens of a sheet with a comment -/

/-- The text of a comment. -/
def commentText (inner : List Char) : List Char := '/' :: '*' :: (inner ++ ['*', '/'])

namespace Token

/-- A comment that holds no end of a comment ends at its own. -/
theorem commentLength_closed {inner : List Char} (h : ¬['*', '/'] <:+: inner)
    (rest : List Char) : commentLength (inner ++ '*' :: '/' :: rest) = inner.length + 2 := by
  induction inner with
  | nil => rfl
  | cons c inner ih =>
    have hrest := ih fun hinfix => h (List.infix_cons hinfix)
    obtain ⟨d, more, hmore, hd⟩ : ∃ d more, inner ++ '*' :: '/' :: rest = d :: more ∧
        ¬(c = '*' ∧ d = '/') := by
      cases inner with
      | nil => exact ⟨'*', _, rfl, fun hend => absurd hend.2 (by decide)⟩
      | cons d inner =>
        refine ⟨d, _, rfl, ?_⟩
        rintro ⟨rfl, rfl⟩
        exact h ⟨[], inner, rfl⟩
    rw [List.cons_append, hmore, commentLength_cons_cons, if_neg hd, ← hmore, hrest,
      List.length_cons]

theorem begins_comment {inner : List Char} (h : ¬['*', '/'] <:+: inner) (rest : List Char) :
    Begins ⟨.comment, commentText inner⟩ rest := by
  have hscan : scan '/' ('*' :: (inner ++ ['*', '/']) ++ rest) = (.comment, inner.length + 4) := by
    rw [List.cons_append, List.append_assoc, scan_comment]
    exact congrArg (fun n => (Kind.comment, n + 2)) (commentLength_closed h rest)
  have hlength : ('*' :: (inner ++ ['*', '/'])).length = inner.length + 3 := by simp
  constructor
  · rw [hscan]
  · rw [hscan]
    dsimp only
    rw [Nat.add_sub_cancel (m := 1), ← hlength, List.drop_left]

end Token

/-- Another text in a comment is another comment among the same tokens. -/
theorem tokens_comment {css inner inner' : List Char} {ts us : List Token}
    (h : tokens css = ts ++ ⟨.comment, commentText inner⟩ :: us)
    (hinner' : ¬['*', '/'] <:+: inner') :
    tokens (textOf ts ++ commentText inner' ++ textOf us) =
      ts ++ ⟨.comment, commentText inner'⟩ :: us := by
  have hscanned := scanned_tokens css
  rw [h] at hscanned
  obtain ⟨hts, hrest⟩ := hscanned.of_append
  cases hrest with
  | cons hcomment hus =>
    -- in front of the comment nothing is seen beyond its slash
    have hsame : SameToStop (textOf (⟨.comment, commentText inner⟩ :: us) ++ [])
        (textOf (⟨.comment, commentText inner'⟩ :: us) ++ []) :=
      .inr ⟨[], '/', _, _, .inr (.inr (.inl rfl)), rfl, rfl⟩
    have hnew : Scanned (ts ++ ⟨.comment, commentText inner'⟩ :: us) [] :=
      (hts.of_sameToStop hsame).append (.cons (Token.begins_comment hinner' _) hus)
    have htext : textOf ts ++ commentText inner' ++ textOf us =
        textOf (ts ++ ⟨.comment, commentText inner'⟩ :: us) := by simp
    rw [htext]
    exact hnew.tokens_textOf

/-- A token that stands among others by its place is one of them. -/
theorem exists_of_place {front value back ts us : List Token} {t : Token}
    (h : front ++ (value ++ back) = ts ++ t :: us)
    (hne : ∀ u ∈ front ++ (value ++ back), u.text ≠ [])
    (hstart : byteLength (textOf front) ≤ byteLength (textOf ts))
    (hstop : byteLength (textOf ts) + byteLength t.text ≤
      byteLength (textOf front) + byteLength (textOf value)) :
    ∃ before after, value = before ++ t :: after ∧ ts = front ++ before ∧ us = after ++ back := by
  have ht : byteLength t.text ≠ 0 := fun hzero =>
    hne t (by rw [h]; simp) (Text.byteLength_eq_zero.1 hzero)
  obtain ⟨before, hts, hrest⟩ : ∃ before, ts = front ++ before ∧
      value ++ back = before ++ t :: us := by
    rcases List.append_eq_append_iff.1 h with ⟨more, hts, hmore⟩ | ⟨more, hfront, hmore⟩
    · exact ⟨more, hts, hmore⟩
    · cases more with
      | nil => exact ⟨[], by simp [hfront], hmore.symm⟩
      | cons u more =>
        obtain rfl : t = u := (List.cons.inj hmore).1
        rw [hfront] at hstart
        simp at hstart
        omega
  subst hts
  rw [textOf_append, Text.byteLength_append] at hstop
  rcases List.append_eq_append_iff.1 hrest with ⟨more, hbefore, -⟩ | ⟨more, hvalue, hmore⟩
  · rw [hbefore] at hstop
    simp at hstop
    omega
  · cases more with
    | nil =>
      rw [hvalue] at hstop
      simp at hstop
      omega
    | cons u after =>
      obtain ⟨rfl, rfl⟩ := List.cons.inj hmore
      exact ⟨before, after, hvalue, rfl, rfl⟩

/-! ### Exchanged segments -/

section Exchanged

variable {convert : List Char → Option (List Char)} {keepWritten : Bool}

theorem Level.map_isConverted_transforms (l : Level) :
    l.transforms.map (Written.isConverted convert) =
      l.segments.filterMap fun ps => (transformOf? ps).map (Written.isConverted convert) := by
  rw [transforms, List.map_filterMap]

/-- Levels of which one has another segment in a place, to the same effect, are compiled with the
same counts and the same edits. -/
theorem Splits.compile_eq_of_segments {css css' : List Char} {l l' : Level} (h : Splits css l)
    (h' : Splits css' l') {front back : List (List Piece)} {ps ps' : List Piece}
    (hsegments : l.segments = front ++ ps :: back) (hsegments' : l'.segments = front ++ ps' :: back)
    (hconverted : (transformOf? ps').map (Written.isConverted convert) =
      (transformOf? ps).map (Written.isConverted convert))
    (hedit : editText? convert keepWritten ps' = editText? convert keepWritten ps) :
    (compileWith convert keepWritten css').converted =
        (compileWith convert keepWritten css).converted ∧
      (compileWith convert keepWritten css').unchanged =
        (compileWith convert keepWritten css).unchanged ∧
      (edits convert keepWritten css').map Text.Edit.text =
        (edits convert keepWritten css).map Text.Edit.text := by
  have hmap : l'.transforms.map (Written.isConverted convert) =
      l.transforms.map (Written.isConverted convert) := by
    rw [Level.map_isConverted_transforms, Level.map_isConverted_transforms, hsegments, hsegments',
      List.filterMap_append, List.filterMap_append, List.filterMap_cons, List.filterMap_cons,
      hconverted]
  have hlength : l'.transforms.length = l.transforms.length := by
    simpa using congrArg List.length hmap
  have hcount : l'.transforms.countP (Written.isConverted convert) =
      l.transforms.countP (Written.isConverted convert) := by
    have hcount := congrArg (List.countP id) hmap
    rwa [List.countP_map, List.countP_map] at hcount
  rw [h.compileWith_eq, h'.compileWith_eq, h.edits_eq, h'.edits_eq, Level.map_text_edits,
    Level.map_text_edits, hsegments, hsegments', hlength, hcount, List.filterMap_append,
    List.filterMap_append, List.filterMap_cons, List.filterMap_cons, hedit]
  exact ⟨rfl, rfl, rfl⟩

/-- A declaration with another value that has the same conversion is converted alike, and its edit
puts in the same text. -/
theorem Written.editText?_of_value {w : Written} {value : List Piece}
    (hw : transformOf? w.parts = some w)
    (hw' : transformOf? { w with value }.parts = some { w with value }) (hne : w.valueText ≠ [])
    (hne' : partsText value ≠ []) (hconvert : convert (partsText value) = convert w.valueText) :
    Written.isConverted convert { w with value } = w.isConverted convert ∧
      editText? convert keepWritten { w with value }.parts =
        editText? convert keepWritten w.parts := by
  constructor
  · change (partsText value ≠ [] && (convert (partsText value)).isSome) = _
    rw [isConverted, hconvert, decide_eq_true hne, decide_eq_true hne']
  · have hindent : indentText { w with value }.parts = indentText w.parts := by
      rw [parts, parts]
      cases w.lead <;> rfl
    have hconversion := @conversion?_of_transformOf? convert _ _ hw'
    change conversion? convert { w with value }.parts = if partsText value = [] then none else
      (convert (partsText value)).map (Prod.mk { w with value }) at hconversion
    rw [if_neg hne', hconvert] at hconversion
    rw [editText?, editText?, hconversion, conversion?_of_transformOf? hw, if_neg hne, hindent]
    cases convert w.valueText <;> rfl

end Exchanged

/-! ### Comments in values -/

/-- A comment inside of the value of a `transform` declaration, with the texts around it in the
sheet, and the text in front of it in the value. -/
structure HasComment (css before inner after front : List Char) : Prop where
  comment : ∃ ts us, tokens css = ts ++ ⟨.comment, commentText inner⟩ :: us ∧ textOf ts = before ∧
    textOf us = after
  value : ∃ d ∈ transforms css, ∃ span, d.transform?.bind Declaration.Value.span = some span ∧
    span.start ≤ byteLength before ∧
    byteLength before + byteLength (commentText inner) ≤ span.stop ∧
    Span.of css ⟨span.start, byteLength before⟩ = front

/-- A value among the tokens of a sheet, found by its place. -/
theorem Segment.exists_value {css : List Char} {place : Nat} {w : Written} {ts us : List Token}
    {t : Token} {tsBefore tsAfter : List Token} (hplace : place = byteLength (textOf tsBefore))
    (htokens : tokens css = tsBefore ++ (tokensOf w.parts ++ tsAfter))
    (hcss : tokens css = ts ++ t :: us) (hstart : w.valueStart place ≤ byteLength (textOf ts))
    (hstop : byteLength (textOf ts) + byteLength t.text ≤
      w.valueStart place + byteLength w.valueText) :
    ∃ before after, tokensOf w.value = before ++ t :: after ∧
      ts = tsBefore ++ (tokensOf w.lead ++ (tokensOf w.head ++ before)) ∧
      us = after ++ (tokensOf w.ending ++ tsAfter) ∧
      Span.of css ⟨w.valueStart place, byteLength (textOf ts)⟩ = textOf before := by
  have hparts : tokens css = (tsBefore ++ (tokensOf w.lead ++ tokensOf w.head)) ++
      (tokensOf w.value ++ (tokensOf w.ending ++ tsAfter)) := by
    rw [htokens, w.parts_eq]
    simp
  have hlength : byteLength (textOf (tsBefore ++ (tokensOf w.lead ++ tokensOf w.head))) =
      w.valueStart place := by
    simp [Written.valueStart, hplace, Nat.add_assoc]
  have hne : ∀ u ∈ tokens css, u.text ≠ [] := fun u hu => text_ne_nil_of_mem_tokens hu
  rw [hparts] at hcss hne
  obtain ⟨before, after, hvalue, rfl, rfl⟩ := exists_of_place hcss hne
    (by rw [hlength]; exact hstart) (by rw [hlength, textOf_tokensOf]; exact hstop)
  refine ⟨before, after, hvalue, by simp, rfl, ?_⟩
  refine Span.of_eq (textOf (tsBefore ++ (tokensOf w.lead ++ tokensOf w.head))) (textOf before)
    (textOf (t :: after ++ (tokensOf w.ending ++ tsAfter))) ?_ hlength.symm ?_
  · rw [← textOf_append, ← textOf_append, ← textOf_tokens css, hparts, hvalue]
    simp
  · rw [textOf_append, Text.byteLength_append]

/-- A comment that is found between the tokens of two texts and in the span of a value. -/
theorem HasComment.of_tokens {css before inner after front : List Char} {span : Span}
    (htokens : tokens css = tokens before ++ ⟨.comment, commentText inner⟩ :: tokens after)
    (hspans : some span ∈
      (transforms css).map fun d => d.transform?.bind Declaration.Value.span)
    (hstart : span.start ≤ byteLength before)
    (hstop : byteLength before + byteLength (commentText inner) ≤ span.stop)
    (hfront : Span.of css ⟨span.start, byteLength before⟩ = front) :
    HasComment css before inner after front := by
  obtain ⟨d, hd, hspan⟩ := List.mem_map.1 hspans
  exact ⟨⟨_, _, htokens, textOf_tokens before, textOf_tokens after⟩, d, hd, span, hspan, hstart,
    hstop, hfront⟩

/-- The segment that a comment stands in, and the same segment with another comment. -/
theorem HasComment.exists_exchanged {css before inner after front inner' : List Char}
    (h : HasComment css before inner after front) (hinner' : ¬['*', '/'] <:+: inner') :
    ∃ l l' : Level, Splits css l ∧ Splits (before ++ commentText inner' ++ after) l' ∧
      ∃ (first last : List (List Piece)) (w : Written) (value : List Piece) (back : List Char),
        l.segments = first ++ w.parts :: last ∧
        l'.segments = first ++ { w with value }.parts :: last ∧
        transformOf? w.parts = some w ∧
        transformOf? { w with value }.parts = some { w with value } ∧
        w.valueText = front ++ (commentText inner ++ back) ∧
        partsText value = front ++ (commentText inner' ++ back) := by
  obtain ⟨l, hl⟩ := exists_splits css
  obtain ⟨⟨ts, us, htokens, rfl, rfl⟩, d, hd, span, hspan, hstart, hstop, rfl⟩ := h
  rw [transforms, List.mem_filter, hl.declarations_eq] at hd
  obtain ⟨⟨place, ps⟩, hs, rfl⟩ := List.mem_map.1 hd.1
  obtain ⟨tsBefore, tsAfter, first, last, hplace, hlevel, hsegments, hexchange⟩ :=
    l.exists_exchanged 0 _ hs
  dsimp only at hlevel hplace hsegments hexchange
  rw [Nat.zero_add] at hplace
  rw [Segment.transform?_declaration] at hspan
  cases hw : transformOf? ps with
  | none =>
    rw [hw] at hspan
    cases hspan
  | some w =>
    obtain ⟨hreading, rfl⟩ := parts_of_transformOf? hw
    rw [hw, Option.map_some, Option.bind_some, Declaration.Value.span_ofParts hreading] at hspan
    split at hspan
    · cases hspan
    obtain rfl := Option.some.inj hspan
    obtain ⟨before, after, hvalue, rfl, rfl, hfront⟩ := Segment.exists_value hplace
      (hl.tokens_eq.trans hlevel) htokens hstart hstop
    have hkinds : (tokensOf w.value).map Token.kind =
        (before ++ ⟨.comment, commentText inner'⟩ :: after).map Token.kind := by
      rw [hvalue]
      simp
    obtain ⟨value, hsame, hvalue'⟩ := exists_sameKinds w.value hkinds
    have hname := name_of_transformOf? hw
    have hparts : List.Forall₂ SameKinds w.parts { w with value }.parts := by
      rw [Written.parts_eq, Written.parts_eq]
      exact List.rel_append (forall₂_sameKinds_refl w.lead) (List.rel_append
        (forall₂_sameKinds_refl w.head) (List.rel_append hsame (forall₂_sameKinds_refl w.ending)))
    obtain ⟨l', hlevel', hsegments', hsplit⟩ := hexchange _ hparts
    refine ⟨l, l', hl, ⟨hsplit 0 false hl.isSplit, ?_⟩, first, last, w, value, textOf after,
      hsegments, hsegments', hw,
      (hreading.of_sameKinds hsame).transformOf?_parts hname, ?_, ?_⟩
    · rw [tokens_comment htokens hinner', hlevel', Written.parts_eq]
      simp [hvalue', Written.head]
    · rw [Written.valueText, ← textOf_tokensOf, hvalue, hfront]
      simp
    · rw [← textOf_tokensOf, hvalue', hfront]
      simp

/-- To the reader of values a comment is text between two slashes. -/
theorem commentText_append (inner back : List Char) :
    commentText inner ++ back = '/' :: ('*' :: (inner ++ ['*']) ++ '/' :: back) := by
  simp [commentText]

/-- **Another text in a comment.** A sheet has as many `transform` declarations whatever is written
in a comment in the value of one of them. It is compiled with the same counts and the same edits, if
neither text of the comment holds a parenthesis, and if the comment does not stand directly inside
of a call, or the words of both texts are the same arguments. -/
theorem compile_comment (settings : Settings) {css before inner after front inner' : List Char}
    (h : HasComment css before inner after front) (hinner' : ¬['*', '/'] <:+: inner') :
    (transforms (before ++ commentText inner' ++ after)).length = (transforms css).length ∧
      ((∀ c ∈ inner ++ inner', Value.IsPlain c) →
        (front.count '(' ≠ front.count ')' + 1 ∨
          Value.arguments ('*' :: (inner ++ ['*'])) = Value.arguments ('*' :: (inner' ++ ['*']))) →
        (compile settings (before ++ commentText inner' ++ after)).converted =
            (compile settings css).converted ∧
          (compile settings (before ++ commentText inner' ++ after)).unchanged =
            (compile settings css).unchanged ∧
          (edits (CssTransform.convert settings.onInvalid) settings.keepWritten
              (before ++ commentText inner' ++ after)).map Text.Edit.text =
            (edits (CssTransform.convert settings.onInvalid) settings.keepWritten css).map
              Text.Edit.text) := by
  obtain ⟨l, l', hl, hl', first, last, w, value, back, hsegments, hsegments', hw, hw', hvalue,
    hvalue'⟩ := h.exists_exchanged hinner'
  refine ⟨?_, fun hplain hargs => ?_⟩
  · rw [hl.length_transforms, hl'.length_transforms, Level.transforms, Level.transforms, hsegments,
      hsegments']
    simp [hw, hw']
  · have hmiddle : ∀ {text : List Char}, (∀ c ∈ text, Value.IsPlain c) →
        ∀ c ∈ '*' :: (text ++ ['*']), Value.IsPlain c := by
      intro text htext c hc
      have hstar : Value.IsPlain '*' := ⟨by decide, by decide⟩
      rcases List.mem_cons.1 hc with rfl | hc
      · exact hstar
      rcases List.mem_append.1 hc with hc | hc
      · exact htext c hc
      · rwa [List.mem_singleton.1 hc]
    have hcalls := @Value.toOption_calls_append front _ _ back
      (hmiddle fun c hc => hplain c (List.mem_append_left inner' hc))
      (hmiddle fun c hc => hplain c (List.mem_append_right inner hc)) hargs
    rw [← commentText_append, ← commentText_append, ← hvalue, ← hvalue'] at hcalls
    have hne : w.valueText ≠ [] := by simp [hvalue, commentText]
    have hne' : partsText value ≠ [] := by simp [hvalue', commentText]
    have heffect := @Written.editText?_of_value
      (CssTransform.convert settings.onInvalid) settings.keepWritten w value hw hw' hne hne'
      (convert_eq_of_toOption_calls settings.onInvalid hcalls.symm)
    obtain ⟨hconverted, hunchanged, hedits⟩ := hl.compile_eq_of_segments hl' hsegments hsegments'
      (by rw [hw, hw', Option.map_some, Option.map_some, heffect.1]) heffect.2
    refine ⟨?_, ?_, hedits⟩
    · rw [compile, compile]
      split
      · exact hconverted
      · rfl
    · rw [compile, compile]
      split
      · exact hunchanged
      · rfl

/-- A comment between two calls, with other words in it. -/
theorem compile_comment_words :
    HasComment "a{transform:scale(2)/* twice */scale(3)}".toList "a\x7btransform:scale(2)".toList
        " twice ".toList "scale(3)\x7d".toList "scale(2)".toList ∧
      (compile default "a{transform:scale(2)/* then again */scale(3)}".toList).converted =
        (compile default "a{transform:scale(2)/* twice */scale(3)}".toList).converted ∧
      (edits (CssTransform.convert .skip) false
          "a{transform:scale(2)/* then again */scale(3)}".toList).map Text.Edit.text =
        (edits (CssTransform.convert .skip) false
          "a{transform:scale(2)/* twice */scale(3)}".toList).map Text.Edit.text := by
  have hcomment : HasComment "a{transform:scale(2)/* twice */scale(3)}".toList
      "a\x7btransform:scale(2)".toList " twice ".toList "scale(3)\x7d".toList "scale(2)".toList :=
    @HasComment.of_tokens _ _ _ _ _ ⟨12, 39⟩ (by decide +kernel) (by decide +kernel)
      (by decide +kernel) (by decide +kernel) (by decide +kernel)
  have hcss : "a\x7btransform:scale(2)".toList ++ commentText " then again ".toList ++
      "scale(3)\x7d".toList = "a{transform:scale(2)/* then again */scale(3)}".toList := by
    decide +kernel
  have hall : (" twice ".toList ++ " then again ".toList).all (fun c => c != '(' && c != ')') := by
    decide +kernel
  have hplain : ∀ c ∈ " twice ".toList ++ " then again ".toList, Value.IsPlain c := fun c hc => by
    simpa [Value.IsPlain] using List.all_eq_true.1 hall c hc
  have hend : ¬['*', '/'] <:+: " then again ".toList := by decide +kernel
  have hcount : "scale(2)".toList.count '(' ≠ "scale(2)".toList.count ')' + 1 := by decide +kernel
  obtain ⟨-, hsame⟩ := compile_comment default hcomment hend
  rw [hcss] at hsame
  obtain ⟨hconverted, -, hedits⟩ := hsame hplain (.inl hcount)
  exact ⟨hcomment, hconverted, hedits⟩

/-- A call in a comment is converted along with the others. -/
theorem compile_comment_call :
    HasComment "a{transform:scale(2)/* scale(9) */scale(3)}".toList "a\x7btransform:scale(2)".toList
        " scale(9) ".toList "scale(3)\x7d".toList "scale(2)".toList ∧
      (compile default "a{transform:scale(2)/* scale(9) */scale(3)}".toList).css =
        "a{transform:matrix3d(54, 0, 0, 0, 0, 54, 0, 0, 0, 0, 1, 0, 0, 0, 0, 1)}".toList ∧
      (compile default "a{transform:scale(2)/**/scale(3)}".toList).css =
        "a{transform:matrix3d(6, 0, 0, 0, 0, 6, 0, 0, 0, 0, 1, 0, 0, 0, 0, 1)}".toList := by
  refine ⟨@HasComment.of_tokens _ _ _ _ _ ⟨12, 42⟩ ?_ ?_ ?_ ?_ ?_, ?_, ?_⟩ <;> decide +kernel

end Stylesheet

end CssTransform
