import CssTransform.Proofs.Stylesheet.Exchange

/-!
# Replaced values

A compiled sheet in which conversions stand in place of the values is split like the sheet that it
was made of: it has the same segments and blocks, with one piece in place of every value that was
converted. Two things have to be seen for that. Nothing in front of a replaced value is cut into
other tokens, since a colon with space and comments stands in front of it; and the conversion is a
whole block whatever follows it.

## Which choice is load-bearing

Of the conversion only that is asked: its text is one block that begins with a name, also when
something follows it.

## Main definitions

* `StandsAlone` — a text that is one block whatever follows it
* `replaced` — a segment with the conversion in place of its value
* `Level.mapSegments` — a function applied to every segment of a level

## Main results

* `transformOf?_replaced` — the declaration that a replaced segment is
* `Exchange.replaced` — a replaced segment can stand in place of the segment
* `Splits.replaced` — the level of a compiled sheet
-/

namespace CssTransform

namespace Stylesheet

/-! ### Texts that are one block -/

/-- The piece that a text is. -/
def pieceOf (s : List Char) : Piece :=
  match tokens s with
  | [] => ⟨⟨.space, []⟩, []⟩
  | t :: ts => ⟨t, ts⟩

/-- A text that is one block whatever follows it, and begins with a name. -/
structure StandsAlone (s : List Char) : Prop where
  text : (pieceOf s).text = s
  kind : ∃ name, (pieceOf s).head.kind = .function name
  whole : (pieceOf s).IsWhole
  scanned : ∀ after, Scanned (pieceOf s).tokens after

theorem StandsAlone.of_tokens {s : List Char} {name : List Char} {o c : Token} {inside : List Token}
    (htext : textOf (o :: (inside ++ [c])) = s) (ho : o.kind = .function name)
    (hinside : Balanced .round inside) (hc : c.kind = .closing .round)
    (hscanned : ∀ after, Scanned (o :: (inside ++ [c])) after) : StandsAlone s := by
  have htokens : tokens s = o :: (inside ++ [c]) := by
    rw [← htext]
    exact (hscanned []).tokens_textOf
  have hpiece : pieceOf s = ⟨o, inside ++ [c]⟩ := by
    rw [pieceOf, htokens]
  refine ⟨?_, ?_, ?_, ?_⟩
  · rw [hpiece]
    exact htext
  · rw [hpiece]
    exact ⟨name, ho⟩
  · rw [hpiece]
    exact .block (by rw [ho]; rfl) hinside hc
  · rw [hpiece]
    exact hscanned

namespace StandsAlone

variable {s : List Char}

theorem isTrivia (h : StandsAlone s) : (pieceOf s).isTrivia = false := by
  obtain ⟨name, hname⟩ := h.kind
  rw [Piece.isTrivia, hname]
  rfl

theorem isImportant (h : StandsAlone s) : (pieceOf s).isImportant = false := by
  obtain ⟨name, hname⟩ := h.kind
  rw [Piece.isImportant, hname]

theorem ne_nil (h : StandsAlone s) : s ≠ [] := by
  have hscanned := h.scanned []
  rw [← h.text, Piece.text]
  rw [Piece.tokens] at hscanned ⊢
  cases hscanned with
  | cons ht hts =>
    rw [textOf_cons]
    exact List.append_ne_nil_of_left_ne_nil ht.text_ne_nil _

theorem isPart (h : StandsAlone s) : (pieceOf s).IsPart := by
  obtain ⟨name, hname⟩ := h.kind
  constructor <;> rw [hname] <;> simp

/-- It begins with no blank. -/
theorem head (h : StandsAlone s) (after : List Char) :
    ∀ d ∈ (textOf (pieceOf s).tokens ++ after).head?, isBlank d = false := by
  obtain ⟨name, hname⟩ := h.kind
  have hscanned := h.scanned after
  rw [Piece.tokens] at hscanned ⊢
  exact hscanned.isBlank_head (by rw [hname]; simp)

end StandsAlone

/-! ### Replaced segments -/

/-- A segment with the conversion of its value in place of the value. -/
def replaced (convert : List Char → Option (List Char)) (ps : List Piece) : List Piece :=
  match conversion? convert ps with
  | none => ps
  | some (w, s) => (w.replace (pieceOf s)).parts

variable {convert : List Char → Option (List Char)}

/-- The text of a replaced segment is its compiled text. -/
theorem partsText_replaced (hconvert : ∀ v s, convert v = some s → StandsAlone s)
    (ps : List Piece) : partsText (replaced convert ps) = compiledText convert false ps := by
  rw [replaced, compiledText]
  cases h : conversion? convert ps with
  | none => rfl
  | some pair =>
    obtain ⟨w, s⟩ := pair
    have hs := hconvert _ _ (transformOf?_of_conversion? h).2.2
    dsimp only
    rw [Written.partsText_parts, if_neg (by decide)]
    simp [Written.replace, Written.head, Written.valueText, Written.markText, Written.mark,
      Written.tail, hs.text]

/-- The declaration that a replaced segment is. -/
theorem transformOf?_replaced (hconvert : ∀ v s, convert v = some s → StandsAlone s)
    {ps : List Piece} {w : Written} {s : List Char} (h : conversion? convert ps = some (w, s)) :
    transformOf? (replaced convert ps) = some (w.replace (pieceOf s)) := by
  obtain ⟨htransform, -, hs⟩ := transformOf?_of_conversion? h
  have hw := (parts_of_transformOf? htransform).1
  have halone := hconvert _ _ hs
  have hreplaced : replaced convert ps = (w.replace (pieceOf s)).parts := by
    rw [replaced, h]
  have hname := name_of_transformOf? htransform
  rw [hreplaced]
  exact (hw.replace halone.isTrivia halone.isImportant).transformOf?_parts hname

/-- A replaced segment is made of whole pieces, also where the segment was cut off. -/
theorem areParts_replaced (hconvert : ∀ v s, convert v = some s → StandsAlone s) {ps : List Piece}
    (hps : ∀ p ∈ ps, IsPiece p) {w : Written} {s : List Char}
    (h : conversion? convert ps = some (w, s)) : AreParts (w.replace (pieceOf s)).parts := by
  obtain ⟨htransform, -, hs⟩ := transformOf?_of_conversion? h
  obtain ⟨hw, rfl⟩ := parts_of_transformOf? htransform
  have halone := hconvert _ _ hs
  refine (hw.replace halone.isTrivia halone.isImportant).areParts (fun p hp => ?_) fun p hp => ?_
  · simp only [Written.replace, Written.parts, List.mem_append, List.mem_cons, List.not_mem_nil,
      or_false] at hp
    rcases hp with hp | rfl | hp | rfl | hp | rfl | hp
    case inr.inr.inr.inr.inr.inl => exact ⟨halone.isPart, .inl halone.whole⟩
    all_goals exact hps _ (by simp [Written.parts, *])
  · rw [List.mem_singleton.1 hp]
    exact halone.whole

/-! ### Exchanged values -/

namespace Exchange

/-- A replaced segment can stand in place of the segment. -/
theorem replaced (hconvert : ∀ v s, convert v = some s → StandsAlone s) {ps : List Piece}
    (hps : ∀ p ∈ ps, IsPiece p) {w : Written} {s : List Char}
    (h : conversion? convert ps = some (w, s)) :
    Exchange (tokensOf ps) (tokensOf (w.replace (pieceOf s)).parts) := by
  obtain ⟨htransform, hne, hs⟩ := transformOf?_of_conversion? h
  obtain ⟨hw, rfl⟩ := parts_of_transformOf? htransform
  have halone := hconvert _ _ hs
  have hcolon := hw.tokens_colon hps
  have hvalue : tokensOf (w.replace (pieceOf s)).value = (pieceOf s).tokens := List.append_nil _
  have hne' : partsText w.value ≠ [] := hne
  rw [w.tokensOf_parts hcolon, (w.replace (pieceOf s)).tokensOf_parts hcolon, hvalue]
  refine of_colon hw.colon fun {_ y'} hy hscanned => ?_
  obtain ⟨hindent, hrest⟩ := hscanned.of_append.2.of_cons.2.of_append
  have hending := hrest.of_append.2.of_sameToStop hy
  refine Scanned.append ?_ ((halone.scanned _).append hending)
  refine hindent.of_trivia (hw.isTrivia_indent hps) (by simp [hne']) ?_
  rw [textOf_append, List.append_assoc]
  exact halone.head _

end Exchange

/-! ### Replaced levels -/

/-- A replaced segment fits. -/
theorem fits_replaced (hconvert : ∀ v s, convert v = some s → StandsAlone s) {ps : List Piece}
    (hps : ∀ p ∈ ps, IsPiece p) : (Filling.one (replaced convert ps)).Fits ps := by
  cases h : conversion? convert ps with
  | none =>
    rw [replaced, h]
    exact .same
  | some pair =>
    rw [replaced, h]
    refine .exchanged (fun qs hqs => ?_) (.replaced hconvert hps h)
    rw [List.mem_singleton.1 hqs]
    exact areParts_replaced hconvert hps h

namespace Level

/-- A function applied to every segment of a level. -/
def mapSegments (g : List Piece → List Piece) (l : Level) : Level := l.expand fun ps => .one (g ps)

theorem render_mapSegments (g : List Piece → List Piece) (f : List Piece → List Char) (l : Level) :
    (l.mapSegments g).render f = l.render fun ps => f (g ps) := l.render_expand _ f

theorem segments_mapSegments (g : List Piece → List Piece) (l : Level) :
    (l.mapSegments g).segments = l.segments.map g := by
  rw [mapSegments, segments_expand, List.map_eq_flatMap]
  rfl

theorem events_mapSegments (g : List Piece → List Piece) (l : Level) :
    (l.mapSegments g).events = l.events.map (Event.map g) := by
  rw [mapSegments, events_expand, List.map_eq_flatMap]
  refine congrArg (List.flatMap · l.events) (funext fun event => ?_)
  cases event <;> rfl

theorem render_congr {f g : List Piece → List Char} (l : Level)
    (h : ∀ ps ∈ l.segments, f ps = g ps) : l.render f = l.render g := by
  induction l with
  | last parts => exact h parts List.mem_cons_self
  | next parts mark rest ih =>
    rw [render, render, h parts List.mem_cons_self,
      ih fun ps hps => h ps (List.mem_cons_of_mem _ hps)]
  | block front opener inside closer rest ihinside ihrest =>
    rw [render, render, ihinside fun ps hps => h ps (List.mem_append_left _ hps),
      ihrest fun ps hps => h ps (List.mem_append_right _ hps)]
  | openBlock front opener inside ih => rw [render, render, ih h]
  | deepBlock front piece rest ih => rw [render, render, ih h]

end Level

/-- **The level of a sheet with replaced values** is that of the sheet, each value replaced. -/
theorem Splits.replaced (hconvert : ∀ v s, convert v = some s → StandsAlone s) {css : List Char}
    {l : Level} (h : Splits css l) :
    Splits (l.render (compiledText convert false)) (l.mapSegments (replaced convert)) := by
  have htext : (fun ps => (Filling.one (Stylesheet.replaced convert ps)).render partsText) =
      compiledText convert false := funext (partsText_replaced hconvert)
  rw [← htext]
  exact h.expand rfl fun ps hps => fits_replaced hconvert (h.isSplit.isPiece ps hps)

end Stylesheet

end CssTransform
