import CssTransform.Stylesheet.Walk

/-!
# Blocks

What brackets enclose is told here without a walk: a block is an opening token, balanced tokens and
its own closing token, and a block that is never closed goes on to the end of the sheet. Any tokens
after an opening token either close its block somewhere or never close it.

A walk that passes over a block is not concerned with what stands inside. It comes out at the
closing token, and only its place has moved.

## Main definitions

* `Balanced` — tokens that leave a block of some bracket open where they end as at their beginning
* `Unclosed` — tokens that leave it open and perhaps other blocks with it
* `Piece` — a token that opens nothing, or a whole block, with `Piece.IsWhole` and `Piece.IsCut`

## Main results

* `exists_closing_or_unclosed` — a block is closed or it is not
* `Walk.foldl_step_of_isWhole`, `Walk.foldl_step_of_deep` — a walk over one piece
* `Walk.foldl_step_of_isCut` — a walk that ends inside a block
-/

namespace CssTransform

namespace Stylesheet

/-! ### Texts of tokens -/

/-- The text that tokens make up. -/
def textOf (ts : List Token) : List Char := ts.flatMap Token.text

@[simp] theorem textOf_nil : textOf [] = [] := rfl

@[simp] theorem textOf_cons (t : Token) (ts : List Token) :
    textOf (t :: ts) = t.text ++ textOf ts := rfl

@[simp] theorem textOf_append (ts us : List Token) : textOf (ts ++ us) = textOf ts ++ textOf us :=
  List.flatMap_append

/-! ### Balanced and unclosed tokens -/

/-- Tokens inside a block of some bracket, none of which closes it: every block that opens among
them is closed among them, and a closing bracket of another kind is a token like others. -/
inductive Balanced : Bracket → List Token → Prop
  | nil {b : Bracket} : Balanced b []
  | token {b : Bracket} {t : Token} {rest : List Token} (hopen : t.kind.opened = none)
      (hclose : t.kind ≠ .closing b) (hrest : Balanced b rest) : Balanced b (t :: rest)
  | block {b inner : Bracket} {o c : Token} {inside rest : List Token}
      (hopen : o.kind.opened = some inner) (hinside : Balanced inner inside)
      (hclose : c.kind = .closing inner) (hrest : Balanced b rest) :
      Balanced b (o :: (inside ++ c :: rest))

/-- Tokens inside a block that they do not close, up to the end of the sheet. -/
inductive Unclosed : Bracket → List Token → Prop
  | level {b : Bracket} {ts : List Token} (h : Balanced b ts) : Unclosed b ts
  | block {b inner : Bracket} {o : Token} {before inside : List Token} (hbefore : Balanced b before)
      (hopen : o.kind.opened = some inner) (hinside : Unclosed inner inside) :
      Unclosed b (before ++ o :: inside)

theorem Unclosed.cons_token {b : Bracket} {t : Token} {rest : List Token}
    (hopen : t.kind.opened = none) (hclose : t.kind ≠ .closing b) (h : Unclosed b rest) :
    Unclosed b (t :: rest) := by
  cases h with
  | level h => exact .level (.token hopen hclose h)
  | block hbefore hinner hinside =>
    exact .block (.token hopen hclose hbefore) hinner hinside

theorem Unclosed.cons_block {b inner : Bracket} {o c : Token} {inside rest : List Token}
    (hopen : o.kind.opened = some inner) (hinside : Balanced inner inside)
    (hclose : c.kind = .closing inner) (h : Unclosed b rest) :
    Unclosed b (o :: (inside ++ c :: rest)) := by
  cases h with
  | level h => exact .level (.block hopen hinside hclose h)
  | block hbefore hinner hunclosed =>
    have := Unclosed.block (.block hopen hinside hclose hbefore) hinner hunclosed
    simpa using this

/-- **A block is closed or it is not.** The tokens after an opening one hold its closing token after
balanced ones, or never close the block. -/
theorem exists_closing_or_unclosed (b : Bracket) (ts : List Token) :
    (∃ inside c rest, ts = inside ++ c :: rest ∧ Balanced b inside ∧ c.kind = .closing b) ∨
      Unclosed b ts := by
  generalize hn : ts.length = n
  induction n using Nat.strongRecOn generalizing b ts with
  | ind n ih =>
    subst hn
    cases ts with
    | nil => exact .inr (.level .nil)
    | cons t ts =>
      cases hopen : t.kind.opened with
      | none =>
        by_cases hclose : t.kind = .closing b
        · exact .inl ⟨[], t, ts, rfl, .nil, hclose⟩
        · rcases ih ts.length (by simp) b ts rfl with ⟨inside, c, rest, rfl, hbal, hc⟩ | hun
          · exact .inl ⟨t :: inside, c, rest, rfl, .token hopen hclose hbal, hc⟩
          · exact .inr (hun.cons_token hopen hclose)
      | some inner =>
        rcases ih ts.length (by simp) inner ts rfl with ⟨inside, c, rest, rfl, hbal, hc⟩ | hun
        · -- the inner block is closed, and the rest is shorter
          rcases ih rest.length (by simp; omega) b rest rfl with
            ⟨after, c', rest', rfl, hbal', hc'⟩ | hun
          · exact .inl ⟨t :: (inside ++ c :: after), c', rest', by simp,
              .block hopen hbal hc hbal', hc'⟩
          · exact .inr (hun.cons_block hopen hbal hc)
        · exact .inr (.block .nil hopen hun)

/-! ### A walk inside a block that it passes over -/

namespace Walk

variable {w : Walk} {block : PassedBlock} {b : Bracket} {t : Token}

theorem step_of_passed (hw : w.passed = some block) (t : Token) :
    w.step t = { w.passOver block t.kind (w.place + Text.byteLength t.text) with
      place := w.place + Text.byteLength t.text } := by
  rw [step, hw]

theorem step_of_not_passed (hw : w.passed = none) (t : Token) :
    w.step t = { w.look t ⟨w.place, w.place + Text.byteLength t.text⟩ with
      place := w.place + Text.byteLength t.text } := by
  rw [step, hw]

theorem bracketsAfter_of_opened {brackets : List Bracket} {kind : Token.Kind}
    (h : kind.opened = some b) : bracketsAfter brackets kind = b :: brackets := by
  cases kind <;> simp_all [bracketsAfter, Token.Kind.opened]

theorem bracketsAfter_of_not_opened {bs : List Bracket} {kind : Token.Kind}
    (hopen : kind.opened = none) (hclose : kind ≠ .closing b) :
    bracketsAfter (b :: bs) kind = b :: bs := by
  cases kind <;> simp_all [bracketsAfter, Token.Kind.opened]

theorem bracketsAfter_closing (bs : List Bracket) : bracketsAfter (b :: bs) (.closing b) = bs := by
  simp [bracketsAfter]

/-- A token after which some bracket is still open. -/
theorem step_inside {brackets bs : List Bracket}
    (hw : w.passed = some { block with brackets }) (h : bracketsAfter brackets t.kind = b :: bs) :
    w.step t = { w with
      place := w.place + Text.byteLength t.text
      passed := some { block with brackets := b :: bs } } := by
  rw [step_of_passed hw, passOver]
  simp only [h]

/-- The token that closes the last open bracket. -/
theorem step_end {brackets : List Bracket}
    (hw : w.passed = some { block with brackets }) (h : bracketsAfter brackets t.kind = []) :
    w.step t = { w.endPassed { block with brackets } (w.place + Text.byteLength t.text) with
      place := w.place + Text.byteLength t.text } := by
  rw [step_of_passed hw, passOver]
  simp only [h]

/-- Balanced tokens leave the brackets of a passed block as they are. -/
theorem foldl_step_of_balanced {inside : List Token} (h : Balanced b inside) {w : Walk}
    {bs : List Bracket} (hw : w.passed = some { block with brackets := b :: bs }) :
    inside.foldl step w = { w with place := w.place + Text.byteLength (textOf inside) } := by
  induction h generalizing w bs with
  | nil => rfl
  | token hopen hclose hrest ih =>
    rw [List.foldl_cons, step_inside hw (bracketsAfter_of_not_opened hopen hclose), ih rfl]
    simp [hw, Nat.add_assoc]
  | block hopen hinside hclose hrest ihinside ihrest =>
    rw [List.foldl_cons, step_inside hw (bracketsAfter_of_opened hopen), List.foldl_append,
      ihinside rfl, List.foldl_cons,
      step_inside rfl (by rw [hclose]; exact bracketsAfter_closing _), ihrest rfl]
    simp [hw, Nat.add_assoc]

/-- Unclosed tokens leave a passed block open. -/
theorem foldl_step_of_unclosed {inside : List Token} (h : Unclosed b inside) {w : Walk}
    {bs : List Bracket} (hw : w.passed = some { block with brackets := b :: bs }) :
    ∃ brackets, inside.foldl step w = { w with
      place := w.place + Text.byteLength (textOf inside)
      passed := some { block with brackets } } := by
  induction h generalizing w bs with
  | @level b ts h =>
    refine ⟨b :: bs, ?_⟩
    rw [foldl_step_of_balanced h hw, ← hw]
  | @block b inner o before inside hbefore hopen hinside ih =>
    have hstep := step_inside (t := o)
      (w := { w with place := w.place + Text.byteLength (textOf before) }) hw
      (bracketsAfter_of_opened hopen)
    rw [List.foldl_append, foldl_step_of_balanced hbefore hw, List.foldl_cons, hstep]
    obtain ⟨brackets, hfold⟩ := ih (w := { w with
      place := w.place + Text.byteLength (textOf before) + Text.byteLength o.text
      passed := some { block with brackets := inner :: b :: bs } }) rfl
    exact ⟨brackets, hfold.trans (by simp [Nat.add_assoc])⟩

end Walk

/-! ### Pieces -/

/-- A token that opens nothing, or a block from its opening token on. -/
structure Piece where
  head : Token
  tail : List Token
deriving DecidableEq

namespace Piece

/-- The tokens of a piece. -/
def tokens (p : Piece) : List Token := p.head :: p.tail

/-- The text of a piece. -/
def text (p : Piece) : List Char := textOf p.tokens

/-- A piece with everything that belongs to it. -/
inductive IsWhole : Piece → Prop
  | token {t : Token} (hopen : t.kind.opened = none) : IsWhole ⟨t, []⟩
  | block {b : Bracket} {o c : Token} {inside : List Token} (hopen : o.kind.opened = some b)
      (hinside : Balanced b inside) (hclose : c.kind = .closing b) : IsWhole ⟨o, inside ++ [c]⟩

/-- A block that is not closed up to the end of the sheet. -/
inductive IsCut : Piece → Prop
  | block {b : Bracket} {o : Token} {inside : List Token} (hopen : o.kind.opened = some b)
      (hinside : Unclosed b inside) : IsCut ⟨o, inside⟩

/-- A piece that ends no declaration. -/
structure IsPart (p : Piece) : Prop where
  semicolon : p.head.kind ≠ .semicolon
  opening : p.head.kind ≠ .opening .curly
  closing : p.head.kind ≠ .closing .curly

end Piece

/-! ### A walk over a piece -/

namespace Walk

variable {w : Walk} {p : Piece}

theorem look_of_plain {t : Token} (hopen : t.kind.opened = none) (hpart : Piece.IsPart ⟨t, []⟩)
    (span : Span) : w.look t span = w.push t span := by
  obtain ⟨hsemicolon, -, hclosing⟩ := hpart
  rw [look]
  split
  · contradiction
  · contradiction
  · simp_all [Token.Kind.opened]
  · rw [hopen]

theorem look_of_opened {o : Token} {b : Bracket} (hopen : o.kind.opened = some b)
    (hcurly : o.kind ≠ .opening .curly) (span : Span) :
    w.look o span = { w with passed := some ⟨o, span.start, [b]⟩ } := by
  rw [look]
  split
  · simp_all [Token.Kind.opened]
  · simp_all [Token.Kind.opened]
  · contradiction
  · rw [hopen]

theorem look_of_deep {o : Token} (ho : o.kind = .opening .curly) (hdeep : ¬w.depth < maxDepth)
    (span : Span) : w.look o span = { w with passed := some ⟨o, span.start, [.curly]⟩ } := by
  rw [look, ho]
  dsimp only
  rw [if_neg hdeep]

/-- A walk over a block that it passes over, up to the closing token. -/
theorem foldl_step_block {o c : Token} {b : Bracket} {inside : List Token} (hw : w.passed = none)
    (hlook : ∀ span : Span, w.look o span = { w with passed := some ⟨o, span.start, [b]⟩ })
    (hinside : Balanced b inside) (hclose : c.kind = .closing b) :
    (o :: (inside ++ [c])).foldl step w =
      { w.endPassed ⟨o, w.place, [b]⟩
          (w.place + Text.byteLength (textOf (o :: (inside ++ [c])))) with
        place := w.place + Text.byteLength (textOf (o :: (inside ++ [c]))) } := by
  have hend := @step_end
    { w with
      place := w.place + Text.byteLength o.text + Text.byteLength (textOf inside)
      passed := some ⟨o, w.place, [b]⟩ }
    ⟨o, w.place, [b]⟩ c [b] rfl (by rw [hclose]; exact bracketsAfter_closing _)
  rw [List.foldl_cons, step_of_not_passed hw, hlook, List.foldl_append,
    @foldl_step_of_balanced ⟨o, w.place, [b]⟩ b inside hinside _ [] rfl, List.foldl_cons, hend]
  simp only [List.foldl_nil, textOf_cons, textOf_append, textOf_nil, Text.byteLength_append,
    Text.byteLength_nil, Nat.add_zero, Nat.add_assoc]
  simp only [endPassed]
  split <;> rfl

/-- A piece of a declaration is one more token of it. -/
theorem foldl_step_of_isWhole (hw : w.passed = none) (h : p.IsWhole) (hpart : p.IsPart) :
    p.tokens.foldl step w = { w with
      place := w.place + Text.byteLength p.text
      current := w.current.push p.head ⟨w.place, w.place + Text.byteLength p.text⟩ } := by
  cases h with
  | token hopen =>
    rw [Piece.tokens, List.foldl_cons, step_of_not_passed hw, look_of_plain hopen hpart]
    simp [push, Piece.text, Piece.tokens]
  | block hopen hinside hclose =>
    rw [Piece.tokens, foldl_step_block hw (look_of_opened hopen hpart.opening) hinside hclose,
      endPassed, if_neg hpart.opening]
    simp [push, hw, Piece.text, Piece.tokens]

/-- A block too deep to be looked into ends the declaration that it is the block of. -/
theorem foldl_step_of_deep (hw : w.passed = none) (h : p.IsWhole)
    (hcurly : p.head.kind = .opening .curly) (hdeep : ¬w.depth < maxDepth) :
    p.tokens.foldl step w = { w with
      place := w.place + Text.byteLength p.text
      current := .startingAt (w.place + Text.byteLength p.text) } := by
  cases h with
  | token hopen => simp_all [Token.Kind.opened]
  | @block b o c inside hopen hinside hclose =>
    obtain rfl : b = .curly := by
      rw [hcurly] at hopen
      exact (Option.some.inj hopen).symm
    rw [Piece.tokens, foldl_step_block hw (look_of_deep hcurly hdeep) hinside hclose, endPassed,
      if_pos hcurly]
    simp [abandon, hw, Piece.text, Piece.tokens]

/-- A walk inside a block that is not closed. -/
theorem foldl_step_of_isCut (hw : w.passed = none) (h : p.IsCut)
    (hlook : ∀ span : Span, ∀ b, p.head.kind.opened = some b →
      w.look p.head span = { w with passed := some ⟨p.head, span.start, [b]⟩ }) :
    ∃ brackets, p.tokens.foldl step w = { w with
      place := w.place + Text.byteLength p.text
      passed := some ⟨p.head, w.place, brackets⟩ } := by
  cases h with
  | @block b o inside hopen hinside =>
    rw [Piece.tokens, List.foldl_cons, step_of_not_passed hw, hlook _ b hopen]
    obtain ⟨brackets, hfold⟩ := @foldl_step_of_unclosed ⟨o, w.place, [b]⟩ b inside hinside
      { w with
        place := w.place + Text.byteLength o.text
        passed := some ⟨o, w.place, [b]⟩ } [] rfl
    exact ⟨brackets, hfold.trans (by simp [Piece.text, Piece.tokens, Nat.add_assoc])⟩

end Walk

end Stylesheet

end CssTransform
