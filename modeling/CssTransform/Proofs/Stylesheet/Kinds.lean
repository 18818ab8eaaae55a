import CssTransform.Proofs.Stylesheet.Edit
import Mathlib.Data.List.Forall2

/-!
# What the kinds of tokens decide

Where blocks end, what is a declaration and where its value ends are decided by the kinds of tokens
alone. So in a level the pieces of a segment can be exchanged for others with tokens of the same
kinds: what comes out is a level again, with the same segments everywhere else.

## Main definitions

* `SameKinds` — pieces whose tokens are of the same kinds
* `Level.Exchanges` — a segment of a level that can be exchanged, with what stands around it

## Main results

* `exists_sameKinds` — tokens of the same kinds make up such pieces
* `Written.IsReading.of_sameKinds` — a declaration with such pieces as its value
* `Level.Exchanges.lift` — a segment stays exchangeable where its level is part of a larger one
* `Level.exists_exchanged` — every segment of a level can be exchanged
-/

namespace CssTransform

namespace Stylesheet

open Text (byteLength)

/-! ### Blocks -/

theorem Balanced.of_kinds {b : Bracket} {ts ts' : List Token} (h : Balanced b ts)
    (hkinds : ts.map Token.kind = ts'.map Token.kind) : Balanced b ts' := by
  induction h generalizing ts' with
  | nil =>
    rw [List.map_eq_nil_iff.1 hkinds.symm]
    exact .nil
  | token hopen hclose hrest ih =>
    obtain ⟨t', rest', rfl, ht, hrest'⟩ := List.map_eq_cons_iff.1 hkinds.symm
    exact .token (by rwa [ht]) (by rwa [ht]) (ih hrest'.symm)
  | block hopen hinside hclose hrest ihinside ihrest =>
    rw [List.map_cons, List.map_append, List.map_cons] at hkinds
    obtain ⟨o', more, rfl, ho, hmore⟩ := List.map_eq_cons_iff.1 hkinds.symm
    obtain ⟨inside', more', rfl, hinside', hmore'⟩ := List.map_eq_append_iff.1 hmore
    obtain ⟨c', rest', rfl, hc, hrest'⟩ := List.map_eq_cons_iff.1 hmore'
    exact .block (by rwa [ho]) (ihinside hinside'.symm) (by rwa [hc]) (ihrest hrest'.symm)

theorem Unclosed.of_kinds {b : Bracket} {ts ts' : List Token} (h : Unclosed b ts)
    (hkinds : ts.map Token.kind = ts'.map Token.kind) : Unclosed b ts' := by
  induction h generalizing ts' with
  | level h => exact .level (h.of_kinds hkinds)
  | block hbefore hopen hinside ih =>
    rw [List.map_append, List.map_cons] at hkinds
    obtain ⟨before', more, rfl, hbefore', hmore⟩ := List.map_eq_append_iff.1 hkinds.symm
    obtain ⟨o', inside', rfl, ho, hinside'⟩ := List.map_eq_cons_iff.1 hmore
    exact .block (hbefore.of_kinds hbefore'.symm) (by rwa [ho]) (ih hinside'.symm)

/-! ### Pieces -/

/-- Pieces whose tokens are of the same kinds. -/
structure SameKinds (p p' : Piece) : Prop where
  head : p.head.kind = p'.head.kind
  tail : p.tail.map Token.kind = p'.tail.map Token.kind

namespace SameKinds

variable {p p' : Piece}

theorem isTrivia_eq (h : SameKinds p p') : p.isTrivia = p'.isTrivia := by
  rw [Piece.isTrivia, Piece.isTrivia, h.head]

theorem isBang_eq (h : SameKinds p p') : p.isBang = p'.isBang := by
  rw [Piece.isBang, Piece.isBang, h.head]

theorem isImportant_eq (h : SameKinds p p') : p.isImportant = p'.isImportant := by
  rw [Piece.isImportant, Piece.isImportant, h.head]

theorem isPart (h : SameKinds p p') (hp : p.IsPart) : p'.IsPart :=
  ⟨h.head ▸ hp.semicolon, h.head ▸ hp.opening, h.head ▸ hp.closing⟩

theorem isWhole (h : SameKinds p p') (hp : p.IsWhole) : p'.IsWhole := by
  obtain ⟨head', tail'⟩ := p'
  obtain ⟨hhead, htail⟩ := h
  cases hp with
  | token hopen =>
    obtain rfl : tail' = [] := List.map_eq_nil_iff.1 htail.symm
    exact .token (hhead ▸ hopen)
  | block hopen hinside hclose =>
    rw [List.map_append] at htail
    obtain ⟨inside', last, rfl, hinside', hlast⟩ := List.map_eq_append_iff.1 htail.symm
    obtain ⟨c', nil', rfl, hc, hnil⟩ := List.map_eq_cons_iff.1 hlast
    obtain rfl : nil' = [] := List.map_eq_nil_iff.1 hnil
    exact .block (hhead ▸ hopen) (hinside.of_kinds hinside'.symm) (hc.trans hclose)

theorem isCut (h : SameKinds p p') (hp : p.IsCut) : p'.IsCut := by
  obtain ⟨head', tail'⟩ := p'
  obtain ⟨hhead, htail⟩ := h
  cases hp with
  | block hopen hinside => exact .block (hhead ▸ hopen) (hinside.of_kinds htail)

end SameKinds

/-- Tokens of the same kinds make up pieces of the same kinds. -/
theorem exists_sameKinds (ps : List Piece) {ts : List Token}
    (h : (tokensOf ps).map Token.kind = ts.map Token.kind) :
    ∃ ps', List.Forall₂ SameKinds ps ps' ∧ tokensOf ps' = ts := by
  induction ps generalizing ts with
  | nil => exact ⟨[], .nil, (List.map_eq_nil_iff.1 h.symm).symm⟩
  | cons p ps ih =>
    rw [tokensOf_cons, Piece.tokens, List.cons_append, List.map_cons, List.map_append] at h
    obtain ⟨head', more, rfl, hhead, hmore⟩ := List.map_eq_cons_iff.1 h.symm
    obtain ⟨tail', rest, rfl, htail, hrest⟩ := List.map_eq_append_iff.1 hmore
    obtain ⟨ps', hps, rfl⟩ := ih hrest.symm
    exact ⟨⟨head', tail'⟩ :: ps', .cons ⟨hhead.symm, htail.symm⟩ hps, by simp [Piece.tokens]⟩

theorem AreParts.of_sameKinds {ps ps' : List Piece} (h : AreParts ps)
    (hsame : List.Forall₂ SameKinds ps ps') : AreParts ps' := by
  induction hsame with
  | nil => exact .nil
  | @cons p p' ps ps' hp hps ih =>
    obtain ⟨hpart, hwhole⟩ := h p List.mem_cons_self
    exact .cons (hp.isPart hpart) (hp.isWhole hwhole) (ih h.tail)

/-! ### Declarations -/

section Behind

variable {behind behind' : List Piece}

theorem sameKinds_skipTrivia (h : List.Forall₂ SameKinds behind behind') :
    List.Forall₂ SameKinds (skipTrivia behind) (skipTrivia behind') := by
  induction h with
  | nil => exact .nil
  | @cons p p' ps ps' hp hps ih =>
    cases htrivia : p.isTrivia with
    | true =>
      rw [skipTrivia_cons_of_isTrivia htrivia,
        skipTrivia_cons_of_isTrivia (hp.isTrivia_eq ▸ htrivia)]
      exact ih
    | false =>
      rw [skipTrivia_cons htrivia, skipTrivia_cons (hp.isTrivia_eq ▸ htrivia)]
      exact .cons hp hps

theorem sameKinds_withoutBang? (h : List.Forall₂ SameKinds behind behind') :
    Option.Rel (List.Forall₂ SameKinds) (withoutBang? behind) (withoutBang? behind') := by
  have hskip := sameKinds_skipTrivia h
  rw [withoutBang?, withoutBang?]
  generalize skipTrivia behind = front at hskip
  generalize skipTrivia behind' = front' at hskip
  cases hskip with
  | nil => exact .none
  | cons hp hps =>
    dsimp only
    rw [← hp.isBang_eq]
    split
    · exact .some (sameKinds_skipTrivia hps)
    · exact .none

theorem sameKinds_withoutMark? (h : List.Forall₂ SameKinds behind behind') :
    Option.Rel (List.Forall₂ SameKinds) (withoutMark? behind) (withoutMark? behind') := by
  have hskip := sameKinds_skipTrivia h
  rw [withoutMark?, withoutMark?]
  generalize skipTrivia behind = front at hskip
  generalize skipTrivia behind' = front' at hskip
  cases hskip with
  | nil => exact .none
  | cons hp hps =>
    dsimp only
    rw [← hp.isImportant_eq]
    split
    · exact sameKinds_withoutBang? hps
    · exact .none

theorem sameKinds_body (h : List.Forall₂ SameKinds behind behind') :
    List.Forall₂ SameKinds (body behind) (body behind') := by
  have hmark := sameKinds_withoutMark? h
  rw [body, body]
  generalize withoutMark? behind = rest at hmark
  generalize withoutMark? behind' = rest' at hmark
  cases hmark with
  | none => exact sameKinds_skipTrivia h
  | some hrest => exact hrest

theorem forall₂_sameKinds_refl (ps : List Piece) : List.Forall₂ SameKinds ps ps :=
  List.forall₂_same.2 fun _ _ => ⟨rfl, rfl⟩

end Behind

/-- Other pieces of the same kinds as the value of a declaration are read as its value. -/
theorem Written.IsReading.of_sameKinds {w : Written} (h : w.IsReading) {value : List Piece}
    (hvalue : List.Forall₂ SameKinds w.value value) : { w with value }.IsReading where
  lead := h.lead
  property := h.property
  gap := h.gap
  colon := h.colon
  indent := h.indent
  front := by
    have hskip := sameKinds_skipTrivia hvalue
    rw [h.front] at hskip
    exact (List.dropWhile_suffix _).eq_of_length (hskip.length_eq.symm.trans hvalue.length_eq)
  back := by
    dsimp only
    have hbody := sameKinds_body (List.rel_reverse (List.rel_append
      (forall₂_sameKinds_refl w.indent) (List.rel_append hvalue (forall₂_sameKinds_refl w.ending))))
    rw [h.back] at hbody
    -- both are what is left of the same pieces, and of the same length
    obtain ⟨ending, -, hall, -⟩ := exists_ending (w.indent ++ (value ++ w.ending)).reverse
    have hsplit : (w.indent ++ (value ++ w.ending)).reverse =
        w.ending.reverse ++ (w.indent ++ value).reverse := by simp
    have hlength : (w.indent ++ value).reverse.length =
        (body (w.indent ++ (value ++ w.ending)).reverse).length := by
      rw [← hbody.length_eq]
      simp [hvalue.length_eq]
    exact (List.append_inj' (hsplit.symm.trans hall) hlength).2.symm

/-! ### Levels -/

namespace Level

/-- A segment of a level, with the tokens and the segments on both sides of it, that can be
exchanged for pieces of the same kinds. -/
structure Exchanges (l : Level) (ps : List Piece) (before after : List Token)
    (front back : List (List Piece)) : Prop where
  tokens_eq : l.tokens = before ++ (tokensOf ps ++ after)
  segments_eq : l.segments = front ++ ps :: back
  exists_level : ∀ ps', List.Forall₂ SameKinds ps ps' → ∃ l' : Level,
    l'.tokens = before ++ (tokensOf ps' ++ after) ∧ l'.segments = front ++ ps' :: back ∧
      ∀ depth closed, l.IsSplit depth closed → l'.IsSplit depth closed

section Lift

variable {first ps : List Piece} {mark opener closer : Token} {piece : Piece}
  {inside rest : Level} {before after : List Token} {front back : List (List Piece)}

/-- The only segment of a level. -/
theorem exchanges_last (ps : List Piece) : (last ps).Exchanges ps [] [] [] [] where
  tokens_eq := by simp [tokens]
  segments_eq := rfl
  exists_level := by
    refine fun ps' hsame => ⟨.last ps', by simp [tokens], rfl, fun depth closed h => ?_⟩
    cases h with
    | last h => exact .last (h.of_sameKinds hsame)
    | @cut _ front piece h hpart hcut =>
      have hfront := List.forall₂_take front.length hsame
      have hlast := List.forall₂_drop front.length hsame
      rw [List.take_left] at hfront
      rw [List.drop_left] at hlast
      rw [← List.take_append_drop front.length ps']
      generalize ps'.take front.length = front' at hfront ⊢
      generalize ps'.drop front.length = last' at hlast ⊢
      cases hlast with
      | cons hpiece hnil =>
        cases hnil
        exact .cut (h.of_sameKinds hfront) (hpiece.isPart hpart) (hpiece.isCut hcut)

/-- The segment in front of a mark. -/
theorem exchanges_next (ps : List Piece) (mark : Token) (rest : Level) :
    (next ps mark rest).Exchanges ps [] (mark :: rest.tokens) [] rest.segments where
  tokens_eq := rfl
  segments_eq := rfl
  exists_level := by
    refine fun ps' hsame => ⟨.next ps' mark rest, rfl, rfl, fun depth closed h => ?_⟩
    cases h with
    | semicolon h hmark hrest => exact .semicolon (h.of_sameKinds hsame) hmark hrest
    | stray h hmark hrest => exact .stray (h.of_sameKinds hsame) hmark hrest

namespace Exchanges

/-- A segment of a level that is put somewhere in a larger one. -/
theorem lift {l : Level} (h : l.Exchanges ps before after front back) (around : Level → Level)
    {tokensBefore tokensAfter : List Token} {segmentsBefore segmentsAfter : List (List Piece)}
    (htokens : ∀ l, (around l).tokens = tokensBefore ++ (l.tokens ++ tokensAfter))
    (hsegments : ∀ l, (around l).segments = segmentsBefore ++ (l.segments ++ segmentsAfter))
    (hsplit : ∀ l', (∀ depth closed, l.IsSplit depth closed → l'.IsSplit depth closed) →
      ∀ depth closed, (around l).IsSplit depth closed → (around l').IsSplit depth closed) :
    (around l).Exchanges ps (tokensBefore ++ before) (after ++ tokensAfter)
      (segmentsBefore ++ front) (back ++ segmentsAfter) where
  tokens_eq := by simp [htokens, h.tokens_eq]
  segments_eq := by simp [hsegments, h.segments_eq]
  exists_level := by
    intro ps' hsame
    obtain ⟨l', htokens', hsegments', hsplit'⟩ := h.exists_level ps' hsame
    exact ⟨around l', by simp [htokens, htokens'], by simp [hsegments, hsegments'],
      hsplit l' hsplit'⟩

/-- Behind a mark. -/
theorem next (h : rest.Exchanges ps before after front back) (first : List Piece) (mark : Token) :
    (next first mark rest).Exchanges ps (tokensOf first ++ [mark] ++ before) (after ++ [])
      ([first] ++ front) (back ++ []) := by
  refine h.lift (.next first mark) (by simp [tokens]) (by simp [segments])
    fun rest' hrest' depth closed hlevel => ?_
  cases hlevel with
  | semicolon h hmark hrest => exact .semicolon h hmark (hrest' _ _ hrest)
  | stray h hmark hrest => exact .stray h hmark (hrest' _ _ hrest)

/-- In a block. -/
theorem block_inside (h : inside.Exchanges ps before after front back) (first : List Piece)
    (opener closer : Token) (rest : Level) :
    (block first opener inside closer rest).Exchanges ps (tokensOf first ++ [opener] ++ before)
      (after ++ closer :: rest.tokens) ([] ++ front) (back ++ rest.segments) := by
  refine h.lift (.block first opener · closer rest) (by simp [tokens]) (by simp [segments])
    fun inside' hinside' depth closed hlevel => ?_
  cases hlevel with
  | block h hopener hdepth hinside hcloser hrest =>
    exact .block h hopener hdepth (hinside' _ _ hinside) hcloser hrest

/-- Behind a block. -/
theorem block_rest (h : rest.Exchanges ps before after front back) (first : List Piece)
    (opener : Token) (inside : Level) (closer : Token) :
    (block first opener inside closer rest).Exchanges ps
      (tokensOf first ++ opener :: (inside.tokens ++ [closer]) ++ before) (after ++ [])
      (inside.segments ++ front) (back ++ []) := by
  refine h.lift (.block first opener inside closer) (by simp [tokens]) (by simp [segments])
    fun rest' hrest' depth closed hlevel => ?_
  cases hlevel with
  | block h hopener hdepth hinside hcloser hrest =>
    exact .block h hopener hdepth hinside hcloser (hrest' _ _ hrest)

/-- In a block that is not closed. -/
theorem openBlock (h : inside.Exchanges ps before after front back) (first : List Piece)
    (opener : Token) :
    (openBlock first opener inside).Exchanges ps (tokensOf first ++ [opener] ++ before)
      (after ++ []) ([] ++ front) (back ++ []) := by
  refine h.lift (.openBlock first opener) (by simp [tokens]) (by simp [segments])
    fun inside' hinside' depth closed hlevel => ?_
  cases hlevel with
  | openBlock h hopener hdepth hinside =>
    exact .openBlock h hopener hdepth (hinside' _ _ hinside)

/-- Behind a block that is not gone into. -/
theorem deepBlock (h : rest.Exchanges ps before after front back) (first : List Piece)
    (piece : Piece) :
    (deepBlock first piece rest).Exchanges ps (tokensOf first ++ piece.tokens ++ before)
      (after ++ []) ([] ++ front) (back ++ []) := by
  by_cases hempty : ps = []
  · -- there is nothing to be exchanged, and the block may be one that is cut off
    subst hempty
    refine ⟨by simp [tokens, h.tokens_eq], by simp [segments, h.segments_eq], fun ps' hsame => ?_⟩
    cases hsame
    exact ⟨.deepBlock first piece rest, by simp [tokens, h.tokens_eq],
      by simp [segments, h.segments_eq], fun _ _ hlevel => hlevel⟩
  · refine h.lift (.deepBlock first piece) (by simp [tokens]) (by simp [segments])
      fun rest' hrest' depth closed hlevel => ?_
    cases hlevel with
    | deepBlock h hcurly hdepth hwhole hrest =>
      exact .deepBlock h hcurly hdepth hwhole (hrest' _ _ hrest)
    | deepCut _ _ _ _ =>
      -- behind a block that is cut off stands an empty segment only
      have hsegments := h.segments_eq
      rw [segments, List.singleton_eq_append_iff] at hsegments
      simp [hempty] at hsegments

end Exchanges

end Lift

/-- One segment of a level can be exchanged for pieces of the same kinds, wherever it stands. -/
theorem exists_exchanged (l : Level) (place : Nat) :
    ∀ s ∈ l.placedFrom place, ∃ before after front back,
      s.place = place + byteLength (textOf before) ∧
        l.Exchanges s.parts before after front back := by
  induction l generalizing place with
  | last ps =>
    intro s hs
    rw [placedFrom_last, List.mem_singleton] at hs
    subst hs
    exact ⟨[], [], [], [], rfl, exchanges_last ps⟩
  | next first mark rest ih =>
    intro s hs
    rw [placedFrom_next, List.mem_cons] at hs
    rcases hs with rfl | hs
    · exact ⟨[], _, [], _, rfl, exchanges_next first mark rest⟩
    · obtain ⟨before, after, front, back, hplace, h⟩ := ih _ s hs
      exact ⟨_, _, _, _, by simp [hplace, Nat.add_assoc], h.next first mark⟩
  | block first opener inside closer rest ihinside ihrest =>
    intro s hs
    rw [placedFrom_block, List.mem_append] at hs
    rcases hs with hs | hs
    · obtain ⟨before, after, front, back, hplace, h⟩ := ihinside _ s hs
      exact ⟨_, _, _, _, by simp [hplace, Nat.add_assoc], h.block_inside first opener closer rest⟩
    · obtain ⟨before, after, front, back, hplace, h⟩ := ihrest _ s hs
      refine ⟨_, _, _, _, ?_, h.block_rest first opener inside closer⟩
      simp [hplace, length, ← textOf_tokens, Nat.add_assoc]
  | openBlock first opener inside ih =>
    intro s hs
    obtain ⟨before, after, front, back, hplace, h⟩ := ih _ s hs
    exact ⟨_, _, _, _, by simp [hplace, Nat.add_assoc], h.openBlock first opener⟩
  | deepBlock first piece rest ih =>
    intro s hs
    obtain ⟨before, after, front, back, hplace, h⟩ := ih _ s hs
    exact ⟨_, _, _, _, by simp [hplace, Piece.text, Nat.add_assoc], h.deepBlock first piece⟩

end Level

end Stylesheet

end CssTransform
