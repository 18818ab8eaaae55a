import CssTransform.Proofs.Stylesheet.Compile
import CssTransform.Proofs.Stylesheet.Scanned

/-!
# Compilation is local

What a compilation makes of a part of a sheet does not depend on the rest of it. Behind a semicolon
or a block of the sheet itself a sheet can be cut, and the two parts are compiled each on its own. A
sheet in which everything is closed is compiled alike inside a block.

## Which choice is load-bearing

Both are said of levels first, where there is nothing to prove about places: a level is followed by
another one, or becomes the inside of a block. That the tokens of the texts are put together in the
same way is where the semicolon, the bracket and the closed ends are needed.

How deep the blocks of a sheet are nested has a say inside a block only. There the innermost ones
may be too deep to be looked into.

## Main definitions

* `IsEnded` — a sheet that ends with a semicolon or a block
* `Nested`, `IsClosed` — tokens and sheets in which everything is closed, and how deep
* `Level.append` — a level followed by another one

## Main results

* `compileWith_append`, `compileWith_wrap` — sheets one after another, and a sheet in a block
* `compile_local` — both, for a compilation with settings
-/

namespace CssTransform

namespace Stylesheet

/-! ### Sheets one after another -/

/-- Tokens that end with a semicolon or a closing curly bracket are the same whatever follows. -/
theorem Scanned.of_mark {ts : List Token} {t : Token} (h : Scanned (ts ++ [t]) [])
    (ht : t.kind = .semicolon ∨ t.kind = .closing .curly) (y : List Char) :
    Scanned (ts ++ [t]) y := by
  obtain ⟨d, hd, hmark⟩ : ∃ d, IsStop d ∧ t.kind.mark? = some d := by
    rcases ht with ht | ht <;> rw [ht]
    · exact ⟨';', by decide, rfl⟩
    · exact ⟨'\x7d', by decide, rfl⟩
  obtain ⟨hts, hlast⟩ := h.of_append
  have hseen : SameToStop (textOf [t] ++ []) (textOf [t] ++ y) := by
    rw [textOf_cons, hlast.of_cons.1.mark_text hmark]
    exact .inr ⟨[], d, [], y, hd, rfl, rfl⟩
  exact (hts.of_sameToStop hseen).append (.cons (hlast.of_cons.1.of_mark hmark _) .nil)

theorem tokens_append {css₁ : List Char} (css₂ : List Char) (h : Scanned (tokens css₁) css₂) :
    tokens (css₁ ++ css₂) = tokens css₁ ++ tokens css₂ := by
  have hscanned : Scanned (tokens css₁ ++ tokens css₂) [] := by
    refine .append ?_ (scanned_tokens css₂)
    rwa [textOf_tokens, List.append_nil]
  have htokens := hscanned.tokens_textOf
  rwa [textOf_append, textOf_tokens, textOf_tokens] at htokens

/-! ### Ended sheets -/

/-- A sheet of whole tokens and blocks of which the last ends a declaration, or what could have been
one: a semicolon, a block in curly brackets, or a closing curly bracket that closes nothing. -/
def IsEnded (css : List Char) : Prop :=
  ∃ (ps : List Piece) (p : Piece), tokens css = tokensOf ps ++ p.tokens ∧
    (∀ q ∈ ps, q.IsWhole) ∧ p.IsWhole ∧ ¬p.IsPart

/-- Only an opening curly bracket opens a curly bracket. -/
theorem Token.Kind.eq_of_opened {kind : Token.Kind} (h : kind.opened = some .curly) :
    kind = .opening .curly := by
  cases kind with
  | opening b => rw [Option.some.inj h]
  | function name => cases h
  | _ => cases h

/-- A whole piece that is no part of a declaration. -/
theorem Piece.IsWhole.cases_of_not_isPart {p : Piece} (hwhole : p.IsWhole) (hpart : ¬p.IsPart) :
    (∃ t, p = ⟨t, []⟩ ∧ (t.kind = .semicolon ∨ t.kind = .closing .curly)) ∨
      ∃ o inside c, p = ⟨o, inside ++ [c]⟩ ∧ o.kind = .opening .curly ∧ Balanced .curly inside ∧
        c.kind = .closing .curly := by
  cases hwhole with
  | @token t hopen =>
    refine .inl ⟨t, rfl, ?_⟩
    by_contra hmark
    obtain ⟨hsemicolon, hclosing⟩ := not_or.1 hmark
    refine hpart ⟨hsemicolon, fun h => ?_, hclosing⟩
    rw [h] at hopen
    cases hopen
  | @block b o c inside hopen hinside hclose =>
    obtain rfl : b = .curly := by
      by_contra hb
      refine hpart ⟨fun h => ?_, fun h => ?_, fun h => ?_⟩ <;> rw [h] at hopen
      · cases hopen
      · exact hb (Option.some.inj hopen).symm
      · cases hopen
    exact .inr ⟨o, inside, c, rfl, Token.Kind.eq_of_opened hopen, hinside, hclose⟩

theorem IsEnded.tokens_append {css₁ : List Char} (h : IsEnded css₁) (css₂ : List Char) :
    tokens (css₁ ++ css₂) = tokens css₁ ++ tokens css₂ := by
  obtain ⟨ps, p, htokens, -, hwhole, hpart⟩ := h
  obtain ⟨ts, t, hp, ht⟩ : ∃ ts t, p.tokens = ts ++ [t] ∧
      (t.kind = .semicolon ∨ t.kind = .closing .curly) := by
    rcases hwhole.cases_of_not_isPart hpart with ⟨t, rfl, ht⟩ | ⟨o, inside, c, rfl, -, -, hc⟩
    · exact ⟨[], t, rfl, ht⟩
    · exact ⟨o :: inside, c, rfl, .inr hc⟩
  refine Stylesheet.tokens_append css₂ ?_
  have hscanned := scanned_tokens css₁
  rw [htokens, hp, ← List.append_assoc] at hscanned ⊢
  exact hscanned.of_mark ht css₂

namespace Level

/-- A level that ends with an empty segment. -/
def IsEnded : Level → Prop
  | last parts => parts = []
  | next _ _ rest => rest.IsEnded
  | block _ _ _ _ rest => rest.IsEnded
  | openBlock _ _ _ => False
  | deepBlock _ _ _ => False

/-- A level that is ended, followed by another one. -/
def append : Level → Level → Level
  | last _, m => m
  | next parts mark rest, m => next parts mark (rest.append m)
  | block front opener inside closer rest, m => block front opener inside closer (rest.append m)
  | openBlock front opener inside, _ => openBlock front opener inside
  | deepBlock front piece rest, _ => deepBlock front piece rest

section Append

variable {l : Level} (h : l.IsEnded) (m : Level)
include h

theorem IsEnded.tokens_append : (l.append m).tokens = l.tokens ++ m.tokens := by
  induction l with
  | last parts =>
    rw [h]
    rfl
  | next parts mark rest ih => simp [append, tokens, ih h]
  | block front opener inside closer rest _ ih => simp [append, tokens, ih h]
  | openBlock front opener inside _ => cases h
  | deepBlock front piece rest _ => cases h

theorem IsEnded.render_append {f : List Piece → List Char} (hf : f [] = []) :
    (l.append m).render f = l.render f ++ m.render f := by
  induction l with
  | last parts => simp [show parts = [] from h, append, render, hf]
  | next parts mark rest ih => simp [append, render, ih h]
  | block front opener inside closer rest _ ih => simp [append, render, ih h]
  | openBlock front opener inside _ => cases h
  | deepBlock front piece rest _ => cases h

theorem IsEnded.transforms_append : (l.append m).transforms = l.transforms ++ m.transforms := by
  induction l with
  | last parts =>
    rw [h]
    rfl
  | next parts mark rest ih =>
    have ih := ih h
    simp only [transforms] at ih
    simp only [append, transforms, segments, List.filterMap_cons, ih]
    split <;> rfl
  | block front opener inside closer rest _ ih =>
    have ih := ih h
    simp only [transforms] at ih
    simp only [append, transforms, segments, List.filterMap_append, ih, List.append_assoc]
  | openBlock front opener inside _ => cases h
  | deepBlock front piece rest _ => cases h

end Append

variable {l m : Level} {depth : Nat} {closed : Bool}

theorem IsSplit.append (hl : l.IsSplit depth closed) (h : l.IsEnded)
    (hm : m.IsSplit depth closed) : (l.append m).IsSplit depth closed := by
  induction hl with
  | last _ => exact hm
  | cut _ _ _ => exact absurd h (by simp [IsEnded])
  | semicolon hparts hmark _ ih => exact .semicolon hparts hmark (ih h hm)
  | stray hparts hmark _ ih => exact .stray hparts hmark (ih h hm)
  | block hfront hopener hdepth hinside hcloser _ _ ih =>
    exact .block hfront hopener hdepth hinside hcloser (ih h hm)
  | openBlock _ _ _ _ _ => cases h
  | deepBlock _ _ _ _ _ _ => cases h
  | deepCut _ _ _ _ => cases h

/-! ### Levels of closed tokens -/

section Front

variable {o c t : Token} {b : Bracket} {inside : List Token}

/-- One more token in front of a level. -/
theorem exists_front_token (hopen : t.kind.opened = none) (hclose : t.kind ≠ .closing .curly)
    (l : Level) : ∃ l' : Level, l'.tokens = t :: l.tokens ∧
      ∀ depth closed, l.IsSplit depth closed → l'.IsSplit depth closed := by
  by_cases hsemicolon : t.kind = .semicolon
  · exact ⟨.next [] t l, rfl, fun _ _ hl => .semicolon .nil hsemicolon hl⟩
  · refine ⟨l.cons ⟨t, []⟩, tokens_cons _ l, fun _ _ hl => hl.cons ⟨hsemicolon, fun h => ?_, hclose⟩
      (.token hopen)⟩
    rw [h] at hopen
    cases hopen

/-- One more block in front of a level, in brackets that are not curly. -/
theorem exists_front_block (hopen : o.kind.opened = some b) (hb : b ≠ .curly)
    (hinside : Balanced b inside) (hclose : c.kind = .closing b) (l : Level) :
    ∃ l' : Level, l'.tokens = o :: (inside ++ c :: l.tokens) ∧
      ∀ depth closed, l.IsSplit depth closed → l'.IsSplit depth closed := by
  refine ⟨l.cons ⟨o, inside ++ [c]⟩, ?_, fun _ _ hl =>
    hl.cons ⟨fun h => ?_, fun h => ?_, fun h => ?_⟩ (.block hopen hinside hclose)⟩
  · rw [tokens_cons, Piece.tokens, List.cons_append, List.append_assoc, List.singleton_append]
  all_goals rw [h] at hopen
  · cases hopen
  · exact hb (Option.some.inj hopen).symm
  · cases hopen

end Front

/-- Tokens inside a block that is closed are a level of any depth. -/
theorem exists_of_balanced {b : Bracket} {ts : List Token} (h : Balanced b ts) (hb : b = .curly)
    (depth : Nat) (closed : Bool) : ∃ l : Level, l.tokens = ts ∧ l.IsSplit depth closed := by
  induction h generalizing depth closed with
  | nil => exact ⟨.last [], rfl, .last .nil⟩
  | token hopen hclose hrest ih =>
    obtain ⟨l, rfl, hl⟩ := ih hb depth closed
    obtain ⟨l', htokens, hl'⟩ := exists_front_token hopen (hb ▸ hclose) l
    exact ⟨l', htokens, hl' depth closed hl⟩
  | @block b inner o c inside rest hopen hinside hclose hrest ihinside ihrest =>
    obtain ⟨l, rfl, hl⟩ := ihrest hb depth closed
    by_cases hinner : inner = .curly
    · subst hinner
      have hcurly := Token.Kind.eq_of_opened hopen
      by_cases hdepth : depth < maxDepth
      · obtain ⟨inner, rfl, hinner⟩ := ihinside rfl (depth + 1) true
        exact ⟨.block [] o inner c l, rfl, .block .nil hcurly hdepth hinner hclose hl⟩
      · refine ⟨.deepBlock [] ⟨o, inside ++ [c]⟩ l, by simp [tokens, Piece.tokens], ?_⟩
        exact .deepBlock .nil hcurly hdepth (.block hopen hinside hclose) hl
    · obtain ⟨l', htokens, hl'⟩ := exists_front_block hopen hinner hinside hclose l
      exact ⟨l', htokens, hl' depth closed hl⟩

/-- One more piece in front of a level of the sheet itself. -/
theorem exists_front {p : Piece} (hp : p.IsWhole) (l : Level) (hl : l.IsSplit 0 false) :
    ∃ l' : Level, l'.tokens = p.tokens ++ l.tokens ∧ l'.IsSplit 0 false ∧
      (l.IsEnded → (p.IsPart → ∀ parts, l ≠ .last parts) →
        l'.IsEnded ∧ ∀ parts, l' ≠ .last parts) := by
  by_cases hpart : p.IsPart
  · refine ⟨l.cons p, tokens_cons p l, hl.cons hpart hp, fun hended hlast => ?_⟩
    cases l with
    | last parts => exact absurd rfl (hlast hpart parts)
    | next parts mark rest => exact ⟨hended, fun _ => by simp [Level.cons]⟩
    | block front opener inside closer rest => exact ⟨hended, fun _ => by simp [Level.cons]⟩
    | openBlock front opener inside => cases hended
    | deepBlock front piece rest => cases hended
  · rcases hp.cases_of_not_isPart hpart with ⟨t, rfl, ht⟩ | ⟨o, inside, c, rfl, ho, hinside, hc⟩
    · refine ⟨.next [] t l, rfl, ?_, fun hended _ => ⟨hended, fun _ => by simp⟩⟩
      exact ht.elim (.semicolon .nil · hl) (.stray .nil · hl)
    · obtain ⟨inner, rfl, hinner⟩ := exists_of_balanced hinside rfl 1 true
      refine ⟨.block [] o inner c l, by simp [tokens, Piece.tokens], ?_,
        fun hended _ => ⟨hended, fun _ => by simp⟩⟩
      exact .block .nil ho (by decide) hinner hc hl

theorem exists_isEnded {css : List Char} (h : Stylesheet.IsEnded css) :
    ∃ l, Splits css l ∧ l.IsEnded := by
  obtain ⟨ps, p, htokens, hwhole, hp, hpart⟩ := h
  have hlevel : ∃ l : Level, l.tokens = tokensOf ps ++ p.tokens ∧ l.IsSplit 0 false ∧
      l.IsEnded ∧ ∀ parts, l ≠ .last parts := by
    clear htokens
    induction ps with
    | nil =>
      obtain ⟨l, htokens, hl, hended⟩ := exists_front hp (.last []) (.last .nil)
      obtain ⟨hended, hlast⟩ := hended rfl fun h => absurd h hpart
      exact ⟨l, by simpa [tokens] using htokens, hl, hended, hlast⟩
    | cons q ps ih =>
      obtain ⟨l, hps, hl, hended, hlast⟩ := ih fun r hr => hwhole r (List.mem_cons_of_mem q hr)
      obtain ⟨l', htokens, hl', hended'⟩ := exists_front (hwhole q List.mem_cons_self) l hl
      obtain ⟨hended', hlast'⟩ := hended' hended fun _ => hlast
      exact ⟨l', by rw [htokens, hps, tokensOf_cons, List.append_assoc], hl', hended', hlast'⟩
  obtain ⟨l, hl, hsplit, hended, -⟩ := hlevel
  exact ⟨l, ⟨hsplit, htokens.trans hl.symm⟩, hended⟩

end Level

section Append

variable {convert : List Char → Option (List Char)} {keepWritten : Bool} {css₁ : List Char}

/-- **A sheet behind an ended one** is compiled on its own. -/
theorem compileWith_append (h : IsEnded css₁) (css₂ : List Char) :
    compileWith convert keepWritten (css₁ ++ css₂) =
      ⟨(compileWith convert keepWritten css₁).css ++ (compileWith convert keepWritten css₂).css,
        (compileWith convert keepWritten css₁).converted +
          (compileWith convert keepWritten css₂).converted,
        (compileWith convert keepWritten css₁).unchanged +
          (compileWith convert keepWritten css₂).unchanged⟩ := by
  obtain ⟨l, hl, hended⟩ := Level.exists_isEnded h
  obtain ⟨m, hm⟩ := exists_splits css₂
  have hsplits : Splits (css₁ ++ css₂) (l.append m) := by
    refine ⟨hl.isSplit.append hended hm.isSplit, ?_⟩
    rw [h.tokens_append css₂, hl.tokens_eq, hm.tokens_eq, hended.tokens_append]
  have hcount := fun l : Level => List.countP_le_length (p := Written.isConverted convert)
    (l := l.transforms)
  rw [hsplits.compileWith_eq, hl.compileWith_eq, hm.compileWith_eq,
    hended.render_append m (f := compiledText convert keepWritten) rfl, hended.transforms_append,
    List.countP_append, List.length_append]
  have hl := hcount l
  have hm := hcount m
  refine congrArg _ ?_
  dsimp only
  omega

end Append

/-! ### Closed sheets -/

/-- Tokens among which every block is closed and no curly bracket closes anything else, with at most
so many blocks in curly brackets in one another. Blocks in other brackets are passed over, and how
deep those in them are nested does not count. -/
inductive Nested : Nat → List Token → Prop
  | nil {n : Nat} : Nested n []
  | token {n : Nat} {t : Token} {rest : List Token} (hopen : t.kind.opened = none)
      (hclose : t.kind ≠ .closing .curly) (hrest : Nested n rest) : Nested n (t :: rest)
  | passed {n : Nat} {b : Bracket} {o c : Token} {inside rest : List Token}
      (hopen : o.kind.opened = some b) (hb : b ≠ .curly) (hinside : Balanced b inside)
      (hclose : c.kind = .closing b) (hrest : Nested n rest) :
      Nested n (o :: (inside ++ c :: rest))
  | block {n : Nat} {o c : Token} {inside rest : List Token} (hopen : o.kind = .opening .curly)
      (hinside : Nested n inside) (hclose : c.kind = .closing .curly)
      (hrest : Nested (n + 1) rest) : Nested (n + 1) (o :: (inside ++ c :: rest))

/-- A sheet in which every block, string, comment and address is closed, no curly bracket closes
anything else, no backslash stands at the end, and at most so many blocks in curly brackets are
nested. Only its last token can be one that is not closed. -/
structure IsClosed (depth : Nat) (css : List Char) : Prop where
  nested : Nested depth (tokens css)
  closed : ∀ t ∈ (tokens css).getLast?, t.IsClosed
  backslash : css.getLast? ≠ some '\\'

/-- Nested tokens are a level wherever there is room for the blocks. -/
theorem Nested.exists_level {n : Nat} {ts : List Token} (h : Nested n ts) :
    ∃ l : Level, l.tokens = ts ∧
      ∀ depth closed, depth + n ≤ maxDepth → l.IsSplit depth closed := by
  induction h with
  | nil => exact ⟨.last [], rfl, fun _ _ _ => .last .nil⟩
  | token hopen hclose hrest ih =>
    obtain ⟨l, rfl, hl⟩ := ih
    obtain ⟨l', htokens, hl'⟩ := Level.exists_front_token hopen hclose l
    exact ⟨l', htokens, fun depth closed hroom => hl' depth closed (hl depth closed hroom)⟩
  | passed hopen hb hinside hclose hrest ih =>
    obtain ⟨l, rfl, hl⟩ := ih
    obtain ⟨l', htokens, hl'⟩ := Level.exists_front_block hopen hb hinside hclose l
    exact ⟨l', htokens, fun depth closed hroom => hl' depth closed (hl depth closed hroom)⟩
  | @block n o c inside rest hopen hinside hclose hrest ihinside ihrest =>
    obtain ⟨inner, rfl, hinner⟩ := ihinside
    obtain ⟨l, rfl, hl⟩ := ihrest
    refine ⟨.block [] o inner c l, rfl, fun depth closed hroom => ?_⟩
    exact .block .nil hopen (by omega) (hinner _ _ (by omega)) hclose (hl _ _ hroom)

/-- The text of a rule with some text as its block. -/
def wrap (css : List Char) : List Char := 'x' :: '\x7b' :: (css ++ ['\x7d'])

section Wrap

open Token (Begins)

theorem IsClosed.tokens_wrap {depth : Nat} {css : List Char} (h : IsClosed depth css) :
    tokens (wrap css) =
      ⟨.ident ['x'], ['x']⟩ :: ⟨.opening .curly, ['\x7b']⟩ :: (tokens css ++
        [⟨.closing .curly, ['\x7d']⟩]) := by
  have hname : ∀ y, Begins ⟨.ident ['x'], ['x']⟩ ('\x7b' :: y) := fun y =>
    .mk (r := []) rfl rfl
  have hcss : Scanned (tokens css) ['\x7d'] := by
    refine (scanned_tokens css).of_stopped (stopped_cons.2 (by decide)) ?_ h.closed
    rw [textOf_tokens]
    exact h.backslash
  have hscanned : Scanned (⟨.ident ['x'], ['x']⟩ :: ⟨.opening .curly, ['\x7b']⟩ ::
      (tokens css ++ [⟨.closing .curly, ['\x7d']⟩])) [] :=
    .cons (hname _) (.cons (Token.begins_mark rfl _)
      (.append hcss (.cons (Token.begins_mark rfl _) .nil)))
  have htokens := hscanned.tokens_textOf
  simpa [textOf_tokens, wrap] using htokens

variable {convert : List Char → Option (List Char)} {keepWritten : Bool}

/-- **A closed sheet in a block** is compiled as outside of it, if there is room for its blocks. -/
theorem compileWith_wrap {n : Nat} {css : List Char} (h : IsClosed n css) (hn : n < maxDepth) :
    compileWith convert keepWritten (wrap css) =
      ⟨wrap (compileWith convert keepWritten css).css,
        (compileWith convert keepWritten css).converted,
        (compileWith convert keepWritten css).unchanged⟩ := by
  obtain ⟨l, htokens, hl⟩ := h.nested.exists_level
  have hsplits : Splits css l := ⟨hl 0 false (by omega), htokens.symm⟩
  let m : Level := .block [⟨⟨.ident ['x'], ['x']⟩, []⟩] ⟨.opening .curly, ['\x7b']⟩ l
    ⟨.closing .curly, ['\x7d']⟩ (.last [])
  have hwrap : Splits (wrap css) m := by
    refine ⟨.block (.cons ⟨?_, ?_, ?_⟩ (.token rfl) .nil) rfl (by decide) (hl 1 true (by omega)) rfl
      (.last .nil), ?_⟩
    · simp
    · simp
    · simp
    · rw [h.tokens_wrap, ← htokens]
      simp [m, Level.tokens, Piece.tokens]
  have htransforms : m.transforms = l.transforms := by
    have hnil : [[]].filterMap transformOf? = [] := rfl
    rw [Level.transforms, Level.transforms, Level.segments, Level.segments, List.filterMap_append,
      hnil, List.append_nil]
  have hrender : m.render (compiledText convert keepWritten) =
      wrap (l.render (compiledText convert keepWritten)) := by
    have hnil : compiledText convert keepWritten [] = [] := rfl
    simp [m, Level.render, hnil, wrap, Piece.text, Piece.tokens]
  rw [hwrap.compileWith_eq, hsplits.compileWith_eq, htransforms, hrender]

end Wrap

/-- **Compilation is local.** A sheet that ends with a semicolon or a block of the sheet itself is
compiled on its own, whatever follows it, and what follows it is compiled on its own too: the texts
come one after another, and the counts are added. A sheet in which everything is closed and at most
31 blocks are nested is compiled in the block of a rule as it is outside of it, and counts the
same. -/
theorem compile_local (settings : Settings) :
    (∀ css₁ css₂, IsEnded css₁ →
      compile settings (css₁ ++ css₂) =
        ⟨(compile settings css₁).css ++ (compile settings css₂).css,
          (compile settings css₁).converted + (compile settings css₂).converted,
          (compile settings css₁).unchanged + (compile settings css₂).unchanged⟩) ∧
      ∀ css, IsClosed 31 css →
        compile settings (wrap css) =
          ⟨wrap (compile settings css).css, (compile settings css).converted,
            (compile settings css).unchanged⟩ := by
  by_cases henabled : settings.enabled = true
  · simp only [compile, if_pos henabled]
    exact ⟨fun css₁ css₂ h => compileWith_append h css₂,
      fun css h => compileWith_wrap h (by decide)⟩
  · have hcompile : ∀ css, compile settings css = ⟨css, 0, 0⟩ := fun css => if_neg henabled
    simp only [hcompile, implies_true, and_self]

/-- A declaration with its semicolon, and a declaration with a comment at its end. -/
theorem compile_local_scale :
    IsEnded "transform:scale(2);".toList ∧ IsClosed 31 "transform:scale(3)/**/".toList ∧
      (compile default "transform:scale(2);transform:scale(3)/**/".toList).converted = 2 ∧
      (compile default (wrap "transform:scale(3)/**/".toList)).converted = 1 := by
  have hended : IsEnded "transform:scale(2);".toList := by
    refine ⟨[⟨⟨.ident "transform".toList, "transform".toList⟩, []⟩, ⟨⟨.colon, [':']⟩, []⟩,
      ⟨⟨.function "scale".toList, "scale(".toList⟩,
        [⟨.number, ['2']⟩] ++ [⟨.closing .round, [')']⟩]⟩], ⟨⟨.semicolon, [';']⟩, []⟩, ?_, ?_,
      .token rfl, fun h => h.semicolon rfl⟩
    · decide +kernel
    · simp only [List.mem_cons, List.not_mem_nil, or_false, forall_eq_or_imp, forall_eq]
      exact ⟨.token rfl, .token rfl, .block rfl (.token rfl (by decide) .nil) rfl⟩
  have hclosed : IsClosed 31 "transform:scale(3)/**/".toList := by
    have htokens : tokens "transform:scale(3)/**/".toList =
        [⟨.ident "transform".toList, "transform".toList⟩, ⟨.colon, [':']⟩,
          ⟨.function "scale".toList, "scale(".toList⟩, ⟨.number, ['3']⟩,
          ⟨.closing .round, [')']⟩, ⟨.comment, "/**/".toList⟩] := by
      decide +kernel
    refine ⟨?_, ?_, by decide⟩
    · rw [htokens]
      exact .token rfl (by decide) (.token rfl (by decide) (.passed rfl (by decide)
        (.token rfl (by decide) .nil) rfl (.token rfl (by decide) .nil)))
    · rw [htokens]
      rintro t ⟨⟩ c ⟨⟩
      exact .mk (r := "**/".toList) (by decide) (by decide)
  obtain ⟨happend, hwrap⟩ := compile_local default
  have h := congrArg Compiled.converted
    (happend _ "transform:scale(3)/**/".toList hended)
  have h' := congrArg Compiled.converted (hwrap _ hclosed)
  exact ⟨hended, hclosed, h.trans (by decide +kernel), h'.trans (by decide +kernel)⟩

end Stylesheet

end CssTransform
