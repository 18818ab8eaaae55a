import CssTransform.Proofs.Stylesheet.Block
import CssTransform.Proofs.Stylesheet.Tour

/-!
# Levels of a sheet

A sheet, and every block in curly brackets that is looked into, is a *level*: segments that end at a
semicolon or at the end of the level, and blocks with the pieces in front of them. A stray closing
bracket ends a segment of the sheet itself; inside a block it closes the block. A block that is
nested too deep is a piece, and nothing is told of what stands in it.

## Which choice is load-bearing

A level is a tree, and which trees are levels of some depth is a predicate, `Level.IsSplit`. It
tells what may stand where without a word about walks. That every sheet is such a level, and that a
walk over it meets the segments of the level and its blocks, are theorems.

## Main definitions

* `Level`, `Level.tokens`, `Level.IsSplit`
* `Level.segments` — the segments of a level and of the blocks in it, in order
* `Level.events` — the same with the blocks around them
* `Level.eventsFrom`, `Level.placedFrom` — these with their places, with and without blocks
* `Splits` — a level that a whole sheet is

## Main results

* `exists_splits` — every sheet is a level
* `Level.map_parts_placedFrom` — the two lists of segments agree
-/

namespace CssTransform

namespace Stylesheet

/-! ### Lists of pieces -/

/-- The tokens of pieces. -/
def tokensOf (ps : List Piece) : List Token := ps.flatMap Piece.tokens

/-- The text of pieces. -/
def partsText (ps : List Piece) : List Char := ps.flatMap Piece.text

@[simp] theorem tokensOf_nil : tokensOf [] = [] := rfl

@[simp] theorem tokensOf_cons (p : Piece) (ps : List Piece) :
    tokensOf (p :: ps) = p.tokens ++ tokensOf ps := rfl

@[simp] theorem tokensOf_append (ps qs : List Piece) :
    tokensOf (ps ++ qs) = tokensOf ps ++ tokensOf qs := List.flatMap_append

@[simp] theorem partsText_nil : partsText [] = [] := rfl

@[simp] theorem partsText_cons (p : Piece) (ps : List Piece) :
    partsText (p :: ps) = p.text ++ partsText ps := rfl

@[simp] theorem partsText_append (ps qs : List Piece) :
    partsText (ps ++ qs) = partsText ps ++ partsText qs := List.flatMap_append

@[simp] theorem textOf_tokensOf (ps : List Piece) : textOf (tokensOf ps) = partsText ps := by
  induction ps with
  | nil => rfl
  | cons p ps ih => rw [tokensOf_cons, textOf_append, ih, partsText_cons, Piece.text]

/-- Whole pieces that end no declaration. -/
def AreParts (ps : List Piece) : Prop := ∀ p ∈ ps, p.IsPart ∧ p.IsWhole

theorem AreParts.nil : AreParts [] := fun _ hp => absurd hp List.not_mem_nil

theorem AreParts.cons {p : Piece} {ps : List Piece} (hpart : p.IsPart) (hwhole : p.IsWhole)
    (h : AreParts ps) : AreParts (p :: ps) := by
  intro q hq
  rcases List.mem_cons.1 hq with rfl | hq
  · exact ⟨hpart, hwhole⟩
  · exact h q hq

theorem AreParts.tail {p : Piece} {ps : List Piece} (h : AreParts (p :: ps)) : AreParts ps :=
  fun q hq => h q (List.mem_cons_of_mem p hq)

/-! ### Levels -/

/-- The sheet, or the inside of a block in curly brackets. -/
inductive Level where
  /-- The last segment. -/
  | last (parts : List Piece)
  /-- A segment with the token that ends it. -/
  | next (parts : List Piece) (mark : Token) (rest : Level)
  /-- A block with the pieces in front of it. -/
  | block (front : List Piece) (opener : Token) (inside : Level) (closer : Token) (rest : Level)
  /-- A block that is not closed up to the end of the sheet. -/
  | openBlock (front : List Piece) (opener : Token) (inside : Level)
  /-- A block that is not looked into. -/
  | deepBlock (front : List Piece) (piece : Piece) (rest : Level)

/-- A segment at its place. -/
structure Segment where
  place : Nat
  parts : List Piece
deriving DecidableEq

namespace Level

/-- The tokens of a level. -/
def tokens : Level → List Token
  | last parts => tokensOf parts
  | next parts mark rest => tokensOf parts ++ mark :: rest.tokens
  | block front opener inside closer rest =>
    tokensOf front ++ opener :: (inside.tokens ++ closer :: rest.tokens)
  | openBlock front opener inside => tokensOf front ++ opener :: inside.tokens
  | deepBlock front piece rest => tokensOf front ++ (piece.tokens ++ rest.tokens)

/-- The text of a level with some text in place of each segment. -/
def render (f : List Piece → List Char) : Level → List Char
  | last parts => f parts
  | next parts mark rest => f parts ++ (mark.text ++ rest.render f)
  | block front opener inside closer rest =>
    partsText front ++ (opener.text ++ (inside.render f ++ (closer.text ++ rest.render f)))
  | openBlock front opener inside => partsText front ++ (opener.text ++ inside.render f)
  | deepBlock front piece rest => partsText front ++ (piece.text ++ rest.render f)

theorem textOf_tokens (l : Level) : textOf l.tokens = l.render partsText := by
  induction l with
  | last parts => simp [tokens, render]
  | next parts mark rest ih => simp [tokens, render, ih]
  | block front opener inside closer rest ihinside ihrest =>
    simp [tokens, render, ihinside, ihrest]
  | openBlock front opener inside ih => simp [tokens, render, ih]
  | deepBlock front piece rest ih => simp [tokens, render, ih, Piece.text]

/-- The segments of a level and of the blocks in it, in order. The pieces in front of a block are
no segment. -/
def segments : Level → List (List Piece)
  | last parts => [parts]
  | next parts _ rest => parts :: rest.segments
  | block _ _ inside _ rest => inside.segments ++ rest.segments
  | openBlock _ _ inside => inside.segments
  | deepBlock _ _ rest => rest.segments

/-- The length of a level in bytes. -/
def length (l : Level) : Nat := Text.byteLength (l.render partsText)

/-- The segments with their places, and the blocks around them, from a place on. -/
def eventsFrom (place : Nat) : Level → List (Event Segment)
  | last parts => [.declared ⟨place, parts⟩]
  | next parts mark rest =>
    .declared ⟨place, parts⟩ ::
      rest.eventsFrom (place + Text.byteLength (partsText parts) + Text.byteLength mark.text)
  | block front opener inside closer rest =>
    let start := place + Text.byteLength (partsText front) + Text.byteLength opener.text
    .entered :: (inside.eventsFrom start ++
      .left :: rest.eventsFrom (start + inside.length + Text.byteLength closer.text))
  | openBlock front opener inside =>
    .entered :: inside.eventsFrom
      (place + Text.byteLength (partsText front) + Text.byteLength opener.text)
  | deepBlock front piece rest =>
    rest.eventsFrom (place + Text.byteLength (partsText front) + Text.byteLength piece.text)

/-- The segments with their places. -/
def placedFrom (place : Nat) (l : Level) : List Segment :=
  (l.eventsFrom place).filterMap Event.declared?

section Placed

variable (place : Nat) (parts front : List Piece) (mark opener closer : Token) (piece : Piece)
  (inside rest : Level)

@[simp] theorem placedFrom_last : (last parts).placedFrom place = [⟨place, parts⟩] := rfl

@[simp] theorem placedFrom_next : (next parts mark rest).placedFrom place =
    ⟨place, parts⟩ :: rest.placedFrom
      (place + Text.byteLength (partsText parts) + Text.byteLength mark.text) := rfl

@[simp] theorem placedFrom_block : (block front opener inside closer rest).placedFrom place =
    inside.placedFrom (place + Text.byteLength (partsText front) + Text.byteLength opener.text) ++
      rest.placedFrom (place + Text.byteLength (partsText front) + Text.byteLength opener.text +
        inside.length + Text.byteLength closer.text) := by
  simp [placedFrom, eventsFrom, List.filterMap_cons, Event.declared?]

@[simp] theorem placedFrom_openBlock : (openBlock front opener inside).placedFrom place =
    inside.placedFrom (place + Text.byteLength (partsText front) + Text.byteLength opener.text) :=
  rfl

@[simp] theorem placedFrom_deepBlock : (deepBlock front piece rest).placedFrom place =
    rest.placedFrom (place + Text.byteLength (partsText front) + Text.byteLength piece.text) := rfl

end Placed

theorem map_parts_placedFrom (l : Level) (place : Nat) :
    (l.placedFrom place).map Segment.parts = l.segments := by
  induction l generalizing place with
  | last parts => rfl
  | next parts mark rest ih => simp [segments, ih]
  | block front opener inside closer rest ihinside ihrest => simp [segments, ihinside, ihrest]
  | openBlock front opener inside ih => simp [segments, ih]
  | deepBlock front piece rest ih => simp [segments, ih]

/-- The segments of a level, and the blocks around them. -/
def events : Level → List (Event (List Piece))
  | last parts => [.declared parts]
  | next parts _ rest => .declared parts :: rest.events
  | block _ _ inside _ rest => .entered :: (inside.events ++ .left :: rest.events)
  | openBlock _ _ inside => .entered :: inside.events
  | deepBlock _ _ rest => rest.events

theorem map_parts_eventsFrom (l : Level) (place : Nat) :
    (l.eventsFrom place).map (Event.map Segment.parts) = l.events := by
  induction l generalizing place with
  | last parts => rfl
  | next parts mark rest ih => simp [eventsFrom, events, Event.map, ih]
  | block front opener inside closer rest ihinside ihrest =>
    simp [eventsFrom, events, Event.map, ihinside, ihrest]
  | openBlock front opener inside ih => simp [eventsFrom, events, Event.map, ih]
  | deepBlock front piece rest ih => simp [eventsFrom, events, ih]

theorem filterMap_declared?_events (l : Level) :
    l.events.filterMap Event.declared? = l.segments := by
  induction l with
  | last parts => rfl
  | next parts mark rest ih => simp [events, segments, Event.declared?, ih]
  | block front opener inside closer rest ihinside ihrest =>
    simp [events, segments, List.filterMap_cons, Event.declared?, ihinside, ihrest]
  | openBlock front opener inside ih =>
    simp [events, segments, List.filterMap_cons, Event.declared?, ih]
  | deepBlock front piece rest ih => exact ih

/-- What a level of some depth is made of. A level that is not closed goes on to the end of the
sheet, and only there may a block be open. -/
inductive IsSplit : Nat → Bool → Level → Prop
  | last {depth : Nat} {closed : Bool} {parts : List Piece} (h : AreParts parts) :
      IsSplit depth closed (.last parts)
  | cut {depth : Nat} {parts : List Piece} {piece : Piece} (h : AreParts parts)
      (hpart : piece.IsPart) (hcut : piece.IsCut) : IsSplit depth false (.last (parts ++ [piece]))
  | semicolon {depth : Nat} {closed : Bool} {parts : List Piece} {mark : Token} {rest : Level}
      (h : AreParts parts) (hmark : mark.kind = .semicolon) (hrest : IsSplit depth closed rest) :
      IsSplit depth closed (.next parts mark rest)
  | stray {closed : Bool} {parts : List Piece} {mark : Token} {rest : Level} (h : AreParts parts)
      (hmark : mark.kind = .closing .curly) (hrest : IsSplit 0 closed rest) :
      IsSplit 0 closed (.next parts mark rest)
  | block {depth : Nat} {closed : Bool} {front : List Piece} {opener closer : Token}
      {inside rest : Level} (h : AreParts front) (hopener : opener.kind = .opening .curly)
      (hdepth : depth < maxDepth) (hinside : IsSplit (depth + 1) true inside)
      (hcloser : closer.kind = .closing .curly) (hrest : IsSplit depth closed rest) :
      IsSplit depth closed (.block front opener inside closer rest)
  | openBlock {depth : Nat} {front : List Piece} {opener : Token} {inside : Level}
      (h : AreParts front) (hopener : opener.kind = .opening .curly) (hdepth : depth < maxDepth)
      (hinside : IsSplit (depth + 1) false inside) :
      IsSplit depth false (.openBlock front opener inside)
  | deepBlock {depth : Nat} {closed : Bool} {front : List Piece} {piece : Piece} {rest : Level}
      (h : AreParts front) (hcurly : piece.head.kind = .opening .curly)
      (hdepth : ¬depth < maxDepth) (hwhole : piece.IsWhole) (hrest : IsSplit depth closed rest) :
      IsSplit depth closed (.deepBlock front piece rest)
  | deepCut {depth : Nat} {front : List Piece} {piece : Piece} (h : AreParts front)
      (hcurly : piece.head.kind = .opening .curly) (hdepth : ¬depth < maxDepth)
      (hcut : piece.IsCut) : IsSplit depth false (.deepBlock front piece (.last []))

/-! ### Every sheet is a level -/

/-- One more piece in front of the first segment or block. -/
def cons (p : Piece) : Level → Level
  | last parts => last (p :: parts)
  | next parts mark rest => next (p :: parts) mark rest
  | block front opener inside closer rest => block (p :: front) opener inside closer rest
  | openBlock front opener inside => openBlock (p :: front) opener inside
  | deepBlock front piece rest => deepBlock (p :: front) piece rest

theorem tokens_cons (p : Piece) (l : Level) : (l.cons p).tokens = p.tokens ++ l.tokens := by
  cases l <;> simp [cons, tokens]

theorem IsSplit.cons {depth : Nat} {closed : Bool} {l : Level} {p : Piece} (hpart : p.IsPart)
    (hwhole : p.IsWhole) (h : l.IsSplit depth closed) : (l.cons p).IsSplit depth closed := by
  cases h with
  | last h => exact .last (h.cons hpart hwhole)
  | cut h hp hcut => exact .cut (h.cons hpart hwhole) hp hcut
  | semicolon h hmark hrest => exact .semicolon (h.cons hpart hwhole) hmark hrest
  | stray h hmark hrest => exact .stray (h.cons hpart hwhole) hmark hrest
  | block h hopener hdepth hinside hcloser hrest =>
    exact .block (h.cons hpart hwhole) hopener hdepth hinside hcloser hrest
  | openBlock h hopener hdepth hinside =>
    exact .openBlock (h.cons hpart hwhole) hopener hdepth hinside
  | deepBlock h hcurly hdepth hp hrest =>
    exact .deepBlock (h.cons hpart hwhole) hcurly hdepth hp hrest
  | deepCut h hcurly hdepth hcut => exact .deepCut (h.cons hpart hwhole) hcurly hdepth hcut

/-- How tokens at some depth go on: either the level ends at a closing bracket among them, or it
goes on to the end of the sheet. -/
def Continues (depth : Nat) (ts : List Token) : Prop :=
  (∃ (l : Level) (c : Token) (rest : List Token), 0 < depth ∧ l.IsSplit depth true ∧
      c.kind = .closing .curly ∧ ts = l.tokens ++ c :: rest) ∨
    ∃ l : Level, l.IsSplit depth false ∧ ts = l.tokens

/-- A way to put something in front of a level carries over to how tokens go on. -/
theorem Continues.map {depth : Nat} {ts : List Token} (h : Continues depth ts) (before : List Token)
    (f : Level → Level) (hsplit : ∀ {closed l}, IsSplit depth closed l → (f l).IsSplit depth closed)
    (htokens : ∀ l, (f l).tokens = before ++ l.tokens) : Continues depth (before ++ ts) := by
  rcases h with ⟨l, c, rest, hdepth, hl, hc, rfl⟩ | ⟨l, hl, rfl⟩
  · exact .inl ⟨f l, c, rest, hdepth, hsplit hl, hc, by rw [htokens, List.append_assoc]⟩
  · exact .inr ⟨f l, hsplit hl, (htokens l).symm⟩

theorem continues_piece {depth : Nat} {p : Piece} {ts : List Token} (hpart : p.IsPart)
    (hwhole : p.IsWhole) (h : Continues depth ts) : Continues depth (p.tokens ++ ts) :=
  h.map p.tokens (cons p) (fun hl => hl.cons hpart hwhole) (tokens_cons p)

theorem continues_mark {depth : Nat} {t : Token} {ts : List Token}
    (hmark : t.kind = .semicolon ∨ t.kind = .closing .curly ∧ depth = 0) (h : Continues depth ts) :
    Continues depth (t :: ts) := by
  refine h.map [t] (Level.next [] t) (fun hl => ?_) fun l => rfl
  rcases hmark with hmark | ⟨hmark, rfl⟩
  · exact .semicolon AreParts.nil hmark hl
  · exact .stray AreParts.nil hmark hl

theorem continues (depth : Nat) (ts : List Token) : Continues depth ts := by
  generalize hn : ts.length = n
  induction n using Nat.strongRecOn generalizing depth ts with
  | ind n ih =>
    subst hn
    cases ts with
    | nil => exact .inr ⟨.last [], .last AreParts.nil, rfl⟩
    | cons t ts =>
      have hshort := ih ts.length (by simp)
      by_cases hsemicolon : t.kind = .semicolon
      · exact continues_mark (.inl hsemicolon) (hshort depth ts rfl)
      by_cases hclosing : t.kind = .closing .curly
      · by_cases hdepth : depth = 0
        · exact continues_mark (.inr ⟨hclosing, hdepth⟩) (hshort depth ts rfl)
        · exact .inl ⟨.last [], t, ts, Nat.pos_of_ne_zero hdepth, .last AreParts.nil, hclosing, rfl⟩
      by_cases hopening : t.kind = .opening .curly
      · by_cases hdepth : depth < maxDepth
        · -- the block is looked into
          rcases hshort (depth + 1) ts rfl with
            ⟨inside, c, rest, -, hinside, hc, rfl⟩ | ⟨l, hl, rfl⟩
          · have hrest := (ih rest.length (by simp; omega) depth rest rfl).map
              (t :: (inside.tokens ++ [c])) (Level.block [] t inside c)
              (fun hl => .block AreParts.nil hopening hdepth hinside hc hl)
              (fun l => by simp [tokens])
            simpa using hrest
          · exact .inr ⟨.openBlock [] t l, .openBlock AreParts.nil hopening hdepth hl, rfl⟩
        · rcases exists_closing_or_unclosed .curly ts with ⟨inside, c, rest, rfl, hbal, hc⟩ | hun
          · have hwhole : Piece.IsWhole ⟨t, inside ++ [c]⟩ :=
              .block (by rw [hopening]; rfl) hbal hc
            have hrest := (ih rest.length (by simp; omega) depth rest rfl).map
              (t :: (inside ++ [c])) (Level.deepBlock [] ⟨t, inside ++ [c]⟩)
              (fun hl => .deepBlock AreParts.nil hopening hdepth hwhole hl) (fun l => rfl)
            simpa using hrest
          · exact .inr ⟨.deepBlock [] ⟨t, ts⟩ (.last []),
              .deepCut AreParts.nil hopening hdepth (.block (by rw [hopening]; rfl) hun),
              by simp [tokens, Piece.tokens]⟩
      have hpart : ∀ tail, Piece.IsPart ⟨t, tail⟩ := fun _ => ⟨hsemicolon, hopening, hclosing⟩
      cases hopen : t.kind.opened with
      | none => exact continues_piece (hpart []) (.token hopen) (hshort depth ts rfl)
      | some b =>
        rcases exists_closing_or_unclosed b ts with ⟨inside, c, rest, rfl, hbal, hc⟩ | hun
        · have hrest := continues_piece (hpart (inside ++ [c])) (.block hopen hbal hc)
            (ih rest.length (by simp; omega) depth rest rfl)
          simpa [Piece.tokens] using hrest
        · exact .inr ⟨.last [⟨t, ts⟩], .cut AreParts.nil (hpart ts) (.block hopen hun),
            by simp [tokens, Piece.tokens]⟩

end Level

/-- A level that a whole sheet is. -/
structure Splits (css : List Char) (l : Level) : Prop where
  isSplit : l.IsSplit 0 false
  tokens_eq : tokens css = l.tokens

/-- Every sheet is a level. -/
theorem exists_splits (css : List Char) : ∃ l, Splits css l := by
  rcases Level.continues 0 (tokens css) with ⟨-, -, -, h, -⟩ | ⟨l, hl, htokens⟩
  · exact absurd h (Nat.lt_irrefl 0)
  · exact ⟨l, hl, htokens⟩

end Stylesheet

end CssTransform
