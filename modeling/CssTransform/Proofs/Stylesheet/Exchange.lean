import CssTransform.Proofs.Stylesheet.Compile
import CssTransform.Proofs.Stylesheet.Scanned

/-!
# Exchanged segments

Segments of a level can be exchanged for others, and one segment for two with a semicolon between
them. What comes out is a level of the sheet that it makes, if nothing in front of an exchanged
segment is cut into other tokens, and if no block in the new segments is left open.

## Which choice is load-bearing

A segment sees of what follows it no more than the next stop. So it is not asked that what follows
is the same, only that it is the same up to a stop, and exchanged segments can follow one another.

## Main definitions

* `IsPiece` — pieces that segments are made of, also at the end of a sheet
* `Exchange` — tokens that can stand in place of others
* `Filling`, `Filling.Fits` — what can stand in the place of a segment
* `Level.expand` — a level with every segment exchanged

## Main results

* `Level.events_expand` — the events of such a level
* `Splits.expand` — it is a level of the sheet that it makes
-/

namespace CssTransform

namespace Stylesheet

/-! ### Pieces of segments -/

/-- Whole pieces, and blocks that are cut off at the end of the sheet. -/
def IsPiece (p : Piece) : Prop := p.IsPart ∧ (p.IsWhole ∨ p.IsCut)

namespace IsPiece

variable {p : Piece}

theorem tail_eq_nil (h : IsPiece p) (hopen : p.head.kind.opened = none) : p.tail = [] := by
  rcases h.2 with hwhole | hcut
  · cases hwhole with
    | token hopen => rfl
    | block ho => simp_all
  · cases hcut with
    | block ho => simp_all

theorem tokens_eq (h : IsPiece p) (hopen : p.head.kind.opened = none) : p.tokens = [p.head] := by
  rw [Piece.tokens, h.tail_eq_nil hopen]

theorem isWhole (h : IsPiece p) (hopen : p.head.kind.opened = none) : p.IsWhole := by
  obtain ⟨head, tail⟩ := p
  obtain rfl := h.tail_eq_nil hopen
  exact .token hopen

end IsPiece

theorem AreParts.isPiece {ps : List Piece} (h : AreParts ps) : ∀ p ∈ ps, IsPiece p :=
  fun p hp => ⟨(h p hp).1, .inl (h p hp).2⟩

namespace Piece

variable {p : Piece}

theorem opened_of_isTrivia (h : p.isTrivia = true) : p.head.kind.opened = none := by
  simp only [isTrivia, Declaration.isTrivia] at h
  split at h
  · next hkind => rw [hkind]; rfl
  · next hkind => rw [hkind]; rfl
  · cases h

theorem opened_of_isBang (h : p.isBang = true) : p.head.kind.opened = none := by
  rw [isBang, beq_iff_eq] at h
  rw [h]
  rfl

theorem opened_of_isImportant (h : p.isImportant = true) : p.head.kind.opened = none := by
  rw [isImportant] at h
  split at h
  · next hkind => rw [hkind]; rfl
  · cases h

end Piece

theorem IsEnding.opened {ending : List Piece} (h : IsEnding ending) :
    ∀ p ∈ ending, p.head.kind.opened = none := by
  intro p hp
  cases h with
  | plain h => exact Piece.opened_of_isTrivia (h p hp)
  | marked hafter himportant hbetween hbang hbefore =>
    rw [List.mem_append, List.mem_cons, List.mem_append, List.mem_cons] at hp
    rcases hp with hp | rfl | hp | rfl | hp
    · exact Piece.opened_of_isTrivia (hafter p hp)
    · exact Piece.opened_of_isImportant himportant
    · exact Piece.opened_of_isTrivia (hbetween p hp)
    · exact Piece.opened_of_isBang hbang
    · exact Piece.opened_of_isTrivia (hbefore p hp)

/-- Space and comments are the tokens that they are called. -/
theorem isTrivia_of_mem_tokensOf {ps : List Piece} (hps : ∀ p ∈ ps, IsPiece p)
    (h : ∀ p ∈ ps, p.isTrivia = true) :
    ∀ t ∈ tokensOf ps, Declaration.isTrivia t.kind = true := by
  intro t ht
  obtain ⟨p, hp, ht⟩ := List.mem_flatMap.1 ht
  rw [(hps p hp).tokens_eq (Piece.opened_of_isTrivia (h p hp)), List.mem_singleton] at ht
  rw [ht]
  exact h p hp

/-- A declaration is made of whole pieces if its value is. -/
theorem Written.IsReading.areParts {w : Written} (h : w.IsReading)
    (hparts : ∀ p ∈ w.parts, IsPiece p) (hvalue : ∀ p ∈ w.value, p.IsWhole) : AreParts w.parts := by
  obtain ⟨name, hname⟩ := h.property
  refine fun p hp => ⟨(hparts p hp).1, ?_⟩
  have hplain : p.head.kind.opened = none → p.IsWhole := (hparts p hp).isWhole
  simp only [parts, List.mem_append, List.mem_cons] at hp
  rcases hp with hp | rfl | hp | rfl | hp | hp | hp
  · exact hplain (Piece.opened_of_isTrivia (h.lead p hp))
  · exact hplain (by rw [hname]; rfl)
  · exact hplain (Piece.opened_of_isTrivia (h.gap p hp))
  · exact hplain (by rw [h.colon]; rfl)
  · exact hplain (Piece.opened_of_isTrivia (h.indent p hp))
  · exact hvalue p hp
  · exact hplain (h.isEnding.opened p (List.mem_reverse.2 hp))

namespace Written

variable {w : Written}

theorem IsReading.tokens_colon (h : w.IsReading) (hparts : ∀ p ∈ w.parts, IsPiece p) :
    w.colon.tokens = [w.colon.head] :=
  (hparts _ (by simp [parts])).tokens_eq (by rw [h.colon]; rfl)

theorem IsReading.isTrivia_indent (h : w.IsReading) (hparts : ∀ p ∈ w.parts, IsPiece p) :
    ∀ t ∈ tokensOf w.indent, Declaration.isTrivia t.kind = true :=
  isTrivia_of_mem_tokensOf (fun p hp => hparts p (by simp [parts, hp])) h.indent

/-- The tokens of a declaration, cut at its colon. -/
theorem tokensOf_parts (w : Written) (hcolon : w.colon.tokens = [w.colon.head]) :
    tokensOf w.parts = tokensOf (w.lead ++ w.property :: w.gap) ++
      w.colon.head :: (tokensOf w.indent ++ (tokensOf w.value ++ tokensOf w.ending)) := by
  simp [parts, hcolon]

end Written

/-- The segments of a level are made of pieces. -/
theorem Level.IsSplit.isPiece {l : Level} {depth : Nat} {closed : Bool}
    (h : l.IsSplit depth closed) : ∀ ps ∈ l.segments, ∀ p ∈ ps, IsPiece p := by
  induction h with
  | last h =>
    intro ps hps
    obtain rfl := List.mem_singleton.1 hps
    exact h.isPiece
  | cut h hpart hcut =>
    intro ps hps p hp
    obtain rfl := List.mem_singleton.1 hps
    rcases List.mem_append.1 hp with hp | hp
    · exact h.isPiece p hp
    · obtain rfl := List.mem_singleton.1 hp
      exact ⟨hpart, .inr hcut⟩
  | semicolon h hmark hrest ih =>
    intro ps hps
    rcases List.mem_cons.1 hps with rfl | hps
    · exact h.isPiece
    · exact ih ps hps
  | stray h hmark hrest ih =>
    intro ps hps
    rcases List.mem_cons.1 hps with rfl | hps
    · exact h.isPiece
    · exact ih ps hps
  | block h hopener hdepth hinside hcloser hrest ihinside ihrest =>
    intro ps hps
    rcases List.mem_append.1 hps with hps | hps
    · exact ihinside ps hps
    · exact ihrest ps hps
  | openBlock h hopener hdepth hinside ih => exact ih
  | deepBlock h hcurly hdepth hwhole hrest ih => exact ih
  | deepCut h hcurly hdepth hcut =>
    intro ps hps
    obtain rfl := List.mem_singleton.1 hps
    exact fun p hp => absurd hp List.not_mem_nil

/-! ### Exchanged tokens -/

/-- Tokens that can stand in place of others in a sheet: they are tokens there as well, and what
stands in front of them sees no difference. What follows may have been exchanged too. -/
structure Exchange (ts ts' : List Token) : Prop where
  scanned {y y' : List Char} (hy : SameToStop y y') (h : Scanned ts y) : Scanned ts' y'
  same {y y' : List Char} (hy : SameToStop y y') (h : Scanned ts y) :
    SameToStop (textOf ts ++ y) (textOf ts' ++ y')

namespace Exchange

variable {ts ts' us us' : List Token}

theorem refl (ts : List Token) : Exchange ts ts where
  scanned hy h := h.of_sameToStop hy
  same hy _ := hy.append (textOf ts)

theorem append (h : Exchange ts ts') (hus : Exchange us us') :
    Exchange (ts ++ us) (ts' ++ us') where
  scanned hy hscanned := by
    obtain ⟨hfirst, hsecond⟩ := hscanned.of_append
    exact (h.scanned (hus.same hy hsecond) hfirst).append (hus.scanned hy hsecond)
  same hy hscanned := by
    obtain ⟨hfirst, hsecond⟩ := hscanned.of_append
    have hsame := h.same (hus.same hy hsecond) hfirst
    simpa only [textOf_append, List.append_assoc] using hsame

theorem cons (t : Token) (h : Exchange ts ts') : Exchange (t :: ts) (t :: ts') :=
  (refl [t]).append h

theorem sameToStop_of_colon {colon : Token} {y : List Char} (h : colon.Begins y)
    (hcolon : colon.kind = .colon) (ts ts' : List Token) (z z' : List Char) :
    SameToStop (textOf (colon :: ts) ++ z) (textOf (colon :: ts') ++ z') := by
  refine .inr ⟨[], ':', textOf ts ++ z, textOf ts' ++ z', .inl rfl, ?_, ?_⟩ <;>
    rw [textOf_cons, h.mark_text (d := ':') (by rw [hcolon]; rfl)] <;> rfl

/-- Behind a colon any tokens can be exchanged for others that are tokens there. -/
theorem of_colon {front : List Token} {colon : Token} (hcolon : colon.kind = .colon)
    (h : ∀ {y y'}, SameToStop y y' → Scanned (front ++ colon :: ts) y → Scanned ts' y') :
    Exchange (front ++ colon :: ts) (front ++ colon :: ts') where
  scanned {y y'} hy hscanned := by
    have hts' := h hy hscanned
    obtain ⟨hfront, hrest⟩ := hscanned.of_append
    have hbegins := hrest.of_cons.1
    exact (hfront.of_sameToStop (sameToStop_of_colon hbegins hcolon ts ts' y y')).append
      (.cons (hbegins.of_mark (d := ':') (by rw [hcolon]; rfl) _) hts')
  same {y y'} _ hscanned := by
    have hbegins := hscanned.of_append.2.of_cons.1
    have hsame := (sameToStop_of_colon hbegins hcolon ts ts' y y').append (textOf front)
    simpa only [textOf_append, List.append_assoc] using hsame

end Exchange

/-! ### Exchanged segments -/

/-- What stands in the place of a segment: a segment, or two with a semicolon between them. -/
inductive Filling where
  | one (parts : List Piece)
  | two (first second : List Piece)

namespace Filling

/-- The segments of a filling. -/
def segments : Filling → List (List Piece)
  | one parts => [parts]
  | two first second => [first, second]

/-- The tokens of a filling. -/
def tokens : Filling → List Token
  | one parts => tokensOf parts
  | two first second => tokensOf first ++ .semicolon :: tokensOf second

/-- The text of a filling with some text in place of each segment. -/
def render (f : List Piece → List Char) : Filling → List Char
  | one parts => f parts
  | two first second => f first ++ ';' :: f second

/-- A filling in a level, by what follows its last segment. -/
def before (k : List Piece → Level) : Filling → Level
  | one parts => k parts
  | two first second => .next first .semicolon (k second)

/-- A filling that can stand in the place of a segment. -/
inductive Fits (ps : List Piece) : Filling → Prop
  | same : Fits ps (.one ps)
  | exchanged {f : Filling} (hparts : ∀ qs ∈ f.segments, AreParts qs)
      (htokens : Exchange (tokensOf ps) f.tokens) : Fits ps f

variable {f : Filling} {ps : List Piece} {k : List Piece → Level}

theorem Fits.exchange (h : f.Fits ps) : Exchange (tokensOf ps) f.tokens := by
  cases h with
  | same => exact .refl _
  | exchanged hparts htokens => exact htokens

theorem Fits.areParts (h : f.Fits ps) (hps : AreParts ps) : ∀ qs ∈ f.segments, AreParts qs := by
  cases h with
  | same =>
    intro qs hqs
    rwa [List.mem_singleton.1 hqs]
  | exchanged hparts htokens => exact hparts

theorem tokens_before {ts : List Token} (hk : ∀ ps, (k ps).tokens = tokensOf ps ++ ts) :
    (f.before k).tokens = f.tokens ++ ts := by
  cases f with
  | one parts => exact hk parts
  | two first second => simp [before, tokens, Level.tokens, hk]

theorem isSplit_before {depth : Nat} {closed : Bool} (hf : ∀ qs ∈ f.segments, AreParts qs)
    (hk : ∀ ps, AreParts ps → (k ps).IsSplit depth closed) :
    (f.before k).IsSplit depth closed := by
  cases f with
  | one parts => exact hk parts (hf parts List.mem_cons_self)
  | two first second =>
    exact .semicolon (hf first List.mem_cons_self) rfl (hk second (hf second (by simp [segments])))

end Filling

namespace Level

/-- A level with a filling in the place of every segment. -/
def expand (g : List Piece → Filling) : Level → Level
  | last parts => (g parts).before last
  | next parts mark rest => (g parts).before fun ps => next ps mark (rest.expand g)
  | block front opener inside closer rest =>
    block front opener (inside.expand g) closer (rest.expand g)
  | openBlock front opener inside => openBlock front opener (inside.expand g)
  | deepBlock front piece rest => deepBlock front piece (rest.expand g)

variable {g : List Piece → Filling}

theorem render_expand (g : List Piece → Filling) (f : List Piece → List Char) (l : Level) :
    (l.expand g).render f = l.render fun ps => (g ps).render f := by
  induction l with
  | last parts =>
    rw [expand, render]
    cases g parts <;> rfl
  | next parts mark rest ih =>
    rw [expand, render, ← ih]
    cases g parts with
    | one parts => rfl
    | two first second => simp [Filling.before, Filling.render, render, Token.semicolon]
  | block front opener inside closer rest ihinside ihrest =>
    rw [expand, render, render, ihinside, ihrest]
  | openBlock front opener inside ih => rw [expand, render, render, ih]
  | deepBlock front piece rest ih => rw [expand, render, render, ih]

theorem segments_expand (g : List Piece → Filling) (l : Level) :
    (l.expand g).segments = l.segments.flatMap fun ps => (g ps).segments := by
  induction l with
  | last parts =>
    rw [expand, segments, List.flatMap_singleton]
    cases g parts <;> rfl
  | next parts mark rest ih =>
    rw [expand, segments, List.flatMap_cons, ← ih]
    cases g parts <;> rfl
  | block front opener inside closer rest ihinside ihrest =>
    rw [expand, segments, segments, ihinside, ihrest, List.flatMap_append]
  | openBlock front opener inside ih => exact ih
  | deepBlock front piece rest ih => exact ih

theorem events_expand (g : List Piece → Filling) (l : Level) :
    (l.expand g).events = l.events.flatMap (Event.expand fun ps => (g ps).segments) := by
  induction l with
  | last parts =>
    rw [expand, events, List.flatMap_singleton, Event.expand]
    cases g parts <;> rfl
  | next parts mark rest ih =>
    rw [expand, events, List.flatMap_cons, Event.expand, ← ih]
    cases g parts <;> rfl
  | block front opener inside closer rest ihinside ihrest =>
    simp [expand, events, Event.expand, ihinside, ihrest]
  | openBlock front opener inside ih => simp [expand, events, Event.expand, ih]
  | deepBlock front piece rest ih => exact ih

theorem exchange_expand (l : Level)
    (hg : ∀ ps ∈ l.segments, Exchange (tokensOf ps) (g ps).tokens) :
    Exchange l.tokens (l.expand g).tokens := by
  induction l with
  | last parts =>
    have htokens : ((g parts).before last).tokens = (g parts).tokens ++ [] :=
      Filling.tokens_before fun ps => (List.append_nil (tokensOf ps)).symm
    rw [expand, htokens, List.append_nil]
    exact hg parts List.mem_cons_self
  | next parts mark rest ih =>
    have htokens : ((g parts).before fun ps => next ps mark (rest.expand g)).tokens =
        (g parts).tokens ++ mark :: (rest.expand g).tokens := Filling.tokens_before fun _ => rfl
    rw [expand, htokens]
    exact (hg parts List.mem_cons_self).append
      (.cons mark (ih fun ps hps => hg ps (List.mem_cons_of_mem parts hps)))
  | block front opener inside closer rest ihinside ihrest =>
    have hinside := ihinside fun ps hps => hg ps (List.mem_append_left _ hps)
    have hrest := ihrest fun ps hps => hg ps (List.mem_append_right _ hps)
    exact (Exchange.refl _).append (.cons opener (hinside.append (.cons closer hrest)))
  | openBlock front opener inside ih => exact (Exchange.refl _).append (.cons opener (ih hg))
  | deepBlock front piece rest ih =>
    exact (Exchange.refl _).append ((Exchange.refl _).append (ih hg))

/-- An expanded level is a level. -/
theorem IsSplit.expand {l : Level} {depth : Nat} {closed : Bool} (h : l.IsSplit depth closed)
    (hnil : g [] = .one []) (hg : ∀ ps ∈ l.segments, (g ps).Fits ps) :
    (l.expand g).IsSplit depth closed := by
  induction h with
  | @last _ _ parts h =>
    exact Filling.isSplit_before ((hg parts List.mem_cons_self).areParts h) fun _ => .last
  | @cut _ parts piece h hpart hcut =>
    rw [Level.expand]
    have hfits := hg (parts ++ [piece]) List.mem_cons_self
    generalize g (parts ++ [piece]) = f at hfits
    cases hfits with
    | same => exact .cut h hpart hcut
    | exchanged hparts htokens => exact Filling.isSplit_before hparts fun _ => .last
  | @semicolon _ _ parts mark rest h hmark hrest ih =>
    have hrest' := ih fun ps hps => hg ps (List.mem_cons_of_mem parts hps)
    exact Filling.isSplit_before ((hg parts List.mem_cons_self).areParts h)
      fun _ hps => .semicolon hps hmark hrest'
  | @stray _ parts mark rest h hmark hrest ih =>
    have hrest' := ih fun ps hps => hg ps (List.mem_cons_of_mem parts hps)
    exact Filling.isSplit_before ((hg parts List.mem_cons_self).areParts h)
      fun _ hps => .stray hps hmark hrest'
  | block h hopener hdepth hinside hcloser hrest ihinside ihrest =>
    exact .block h hopener hdepth (ihinside fun ps hps => hg ps (List.mem_append_left _ hps))
      hcloser (ihrest fun ps hps => hg ps (List.mem_append_right _ hps))
  | openBlock h hopener hdepth hinside ih => exact .openBlock h hopener hdepth (ih hg)
  | deepBlock h hcurly hdepth hwhole hrest ih => exact .deepBlock h hcurly hdepth hwhole (ih hg)
  | deepCut h hcurly hdepth hcut =>
    rw [Level.expand, Level.expand, hnil]
    exact .deepCut h hcurly hdepth hcut

end Level

/-- **An expanded level is a level of the sheet that it makes.** -/
theorem Splits.expand {css : List Char} {l : Level} {g : List Piece → Filling} (h : Splits css l)
    (hnil : g [] = .one []) (hg : ∀ ps ∈ l.segments, (g ps).Fits ps) :
    Splits (l.render fun ps => (g ps).render partsText) (l.expand g) where
  isSplit := h.isSplit.expand hnil hg
  tokens_eq := by
    have hscanned := scanned_tokens css
    rw [h.tokens_eq] at hscanned
    have hexchange := l.exchange_expand fun ps hps => (hg ps hps).exchange
    have htokens := (hexchange.scanned (.inl rfl) hscanned).tokens_textOf
    rwa [Level.textOf_tokens, Level.render_expand] at htokens

end Stylesheet

end CssTransform
