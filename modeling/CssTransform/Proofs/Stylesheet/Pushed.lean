import CssTransform.Proofs.Stylesheet.Compile

/-!
# Declarations by their significant tokens

Space and comments carry no meaning for a declaration, so what it says is told by the rest of its
tokens, the *significant* ones. It has a value exactly if these begin with a name and a colon, and
the value covers all that follow, a mark at their end set aside. Here the spans of the tokens are
any that come one after another. Tokens and blocks are treated alike: a block is its first token
with the span of the whole.

## Which choice is load-bearing

While tokens come in, `bang` and `important` are set, moved and forgotten again. What they hold at
any time is a fact about the last two significant tokens alone, `Value.After`. It is one statement
for every history, and a token more keeps it.

## Main definitions

* `Placed` — a token or a block with its span
* `Consecutive` — spans that come one after another
* `Placed.significant` — the tokens that count
* `Placed.withoutMark`, `Placed.mark` — those before a mark at their end, and the mark
* `Placed.cover` — from the first to the last of some tokens
* `Declaration.pushed` — the declaration that tokens make

## Main results

* `Declaration.phase_pushPlaced` — space and comments do not count
* `Declaration.Value.After.push` — the invariant of a value
* `Declaration.pushed_value` — a declaration is what its significant tokens say
* `exists_pushed_of_mem_declarations` — so is every declaration of a sheet
-/

namespace CssTransform

namespace Stylesheet

/-- A token, or a block, with its span. -/
structure Placed where
  piece : Piece
  span : Span
deriving DecidableEq

/-- Spans that come one after another from a place on, none of them empty. -/
inductive Consecutive : Nat → List Placed → Prop
  | nil (place : Nat) : Consecutive place []
  | cons {t : Placed} {ts : List Placed} (hpos : t.span.start < t.span.stop)
      (h : Consecutive t.span.stop ts) : Consecutive t.span.start (t :: ts)

/-- Tokens in their order: none is empty and each begins where the one before has ended or later. -/
structure Ordered (ts : List Placed) : Prop where
  start_lt_stop : ∀ t ∈ ts, t.span.start < t.span.stop
  pairwise : ts.Pairwise fun t u => t.span.stop ≤ u.span.start

/-! ### Significant tokens -/

/-- A name, which may be that of a property. -/
def Piece.isName (p : Piece) : Bool :=
  match p.head.kind with
  | .ident _ => true
  | _ => false

theorem Piece.exists_of_isName {p : Piece} (h : p.isName = true) :
    ∃ word, p.head.kind = .ident word := by
  rw [isName] at h
  split at h
  · next word hword => exact ⟨word, hword⟩
  · cases h

namespace Placed

/-- The tokens that are neither space nor comments. -/
def significant (ts : List Placed) : List Placed := ts.filter fun t => !t.piece.isTrivia

/-- Whether tokens end in the beginning of a mark. -/
def endsInBang (ts : List Placed) : Bool := ts.getLast?.any fun t => t.piece.isBang

/-- Whether tokens end in a mark. -/
def endsInMark (ts : List Placed) : Bool :=
  endsInBang ts.dropLast && ts.getLast?.any fun t => t.piece.isImportant

/-- Tokens without the mark that they end in, if they do. -/
def withoutMark (ts : List Placed) : List Placed :=
  if endsInMark ts then ts.dropLast.dropLast else ts

/-- The mark that tokens end in, or nothing. -/
def mark (ts : List Placed) : List Placed := ts.drop (withoutMark ts).length

/-- Where tokens end that begin at a place. -/
def stopFrom (place : Nat) (ts : List Placed) : Nat :=
  (ts.getLast?.map fun t => t.span.stop).getD place

/-- The span from the start of the first to the end of the last of some tokens. -/
def cover : List Placed → Option Span
  | [] => none
  | t :: ts => some ⟨t.span.start, stopFrom t.span.stop ts⟩

/-- Whether tokens begin with a name and a colon. -/
def beginsDeclaration : List Placed → Bool
  | name :: colon :: _ => name.piece.isName && colon.piece.head.kind == .colon
  | _ => false

section Marks

variable (ts : List Placed) (t : Placed)

@[simp] theorem endsInBang_concat : endsInBang (ts ++ [t]) = t.piece.isBang := by
  simp [endsInBang]

@[simp] theorem endsInMark_concat :
    endsInMark (ts ++ [t]) = (endsInBang ts && t.piece.isImportant) := by
  simp [endsInMark]

@[simp] theorem stopFrom_nil (place : Nat) : stopFrom place [] = place := rfl

@[simp] theorem stopFrom_concat (place : Nat) : stopFrom place (ts ++ [t]) = t.span.stop := by
  simp [stopFrom]

theorem stopFrom_cons (place : Nat) : stopFrom place (t :: ts) = stopFrom t.span.stop ts := by
  cases ts using List.reverseRecOn with
  | nil => rfl
  | append_singleton ts u => rw [← List.cons_append, stopFrom_concat, stopFrom_concat]

theorem withoutMark_isPrefix : withoutMark ts <+: ts := by
  rw [withoutMark]
  split
  · have hlast := List.dropLast_prefix ts
    have hbang := List.dropLast_prefix ts.dropLast
    exact hbang.trans hlast
  · exact List.prefix_refl ts

theorem withoutMark_append_mark : withoutMark ts ++ mark ts = ts :=
  List.prefix_iff_eq_append.1 (withoutMark_isPrefix ts)

end Marks

end Placed

open Placed

/-! ### Order -/

namespace Ordered

variable {t : Placed} {ts us : List Placed}

theorem sublist (h : Ordered us) (hts : ts.Sublist us) : Ordered ts where
  start_lt_stop t ht := h.start_lt_stop t (hts.subset ht)
  pairwise := h.pairwise.sublist hts

theorem tail (h : Ordered (t :: ts)) : Ordered ts := h.sublist (List.sublist_cons_self t ts)

/-- Tokens end behind the start of their first. -/
theorem lt_stopFrom (h : Ordered (t :: ts)) : t.span.start < stopFrom t.span.stop ts := by
  have ht := h.start_lt_stop t List.mem_cons_self
  cases ts using List.reverseRecOn with
  | nil => exact ht
  | append_singleton ts u =>
    have hle := (List.pairwise_cons.1 h.pairwise).1 u List.mem_concat_self
    have hu := h.start_lt_stop u (List.mem_cons_of_mem t List.mem_concat_self)
    rw [stopFrom_concat]
    omega

/-- The tokens that begin where some token ends or later are those behind it. -/
theorem filter_behind (h : Ordered (ts ++ t :: us)) :
    (ts ++ t :: us).filter (fun u => t.span.stop ≤ u.span.start) = us := by
  obtain ⟨-, hbehind, hfront⟩ := List.pairwise_append.1 h.pairwise
  have hstart : ∀ u ∈ ts ++ [t], u.span.start < t.span.stop := by
    intro u hu
    have hu' : u ∈ ts ++ t :: us := by simpa using List.mem_append_left us hu
    have hlt := h.start_lt_stop u hu'
    rcases List.mem_append.1 hu with hu | hu
    · have hle := hfront u hu t List.mem_cons_self
      have ht := h.start_lt_stop t (List.mem_append_right ts List.mem_cons_self)
      omega
    · obtain rfl := List.mem_singleton.1 hu
      exact hlt
  have hsplit : ts ++ t :: us = (ts ++ [t]) ++ us := by simp
  rw [hsplit, List.filter_append, List.filter_eq_nil_iff.2, List.filter_eq_self.2, List.nil_append]
  · exact fun u hu => decide_eq_true ((List.pairwise_cons.1 hbehind).1 u hu)
  · intro u hu
    have := hstart u hu
    simp only [decide_eq_true_eq]
    omega

end Ordered

/-- The span that tokens cover ends with their last. -/
theorem exists_of_cover {ts : List Placed} {span : Span} (h : cover ts = some span) :
    ∃ us t, ts = us ++ [t] ∧ span.stop = t.span.stop := by
  cases ts using List.reverseRecOn with
  | nil => cases h
  | append_singleton ts t =>
    refine ⟨ts, t, rfl, ?_⟩
    cases ts with
    | nil =>
      obtain rfl := Option.some.inj h
      rfl
    | cons u ts =>
      obtain rfl := Option.some.inj h
      exact stopFrom_concat ts t u.span.stop

theorem Consecutive.ordered {place : Nat} {ts : List Placed} (h : Consecutive place ts) :
    Ordered ts ∧ ∀ t ∈ ts, place ≤ t.span.start := by
  induction h with
  | nil place =>
    exact ⟨⟨fun t ht => absurd ht List.not_mem_nil, .nil⟩, fun t ht => absurd ht List.not_mem_nil⟩
  | @cons t ts hpos _ ih =>
    obtain ⟨hordered, hbehind⟩ := ih
    refine ⟨⟨List.forall_mem_cons.2 ⟨hpos, hordered.start_lt_stop⟩,
      List.pairwise_cons.2 ⟨hbehind, hordered.pairwise⟩⟩, ?_⟩
    refine List.forall_mem_cons.2 ⟨Nat.le_refl _, fun u hu => ?_⟩
    exact Nat.le_trans (Nat.le_of_lt hpos) (hbehind u hu)

/-! ### Phases -/

namespace Declaration

/-- The declaration after some tokens. -/
def pushPlaced (d : Declaration) (ts : List Placed) : Declaration :=
  ts.foldl (fun d t => d.push t.piece.head t.span) d

/-- The declaration that tokens make, from a place on. -/
def pushed (place : Nat) (ts : List Placed) : Declaration := (startingAt place).pushPlaced ts

variable {d e : Declaration} {token : Token}

/-- The phase after a token depends on the phase before it alone. -/
theorem phase_push_congr (h : d.phase = e.phase) (token : Token) (span : Span) :
    (d.push token span).phase = (e.push token span).phase := by
  simp only [push]
  rw [h]
  cases hphase : e.phase with
  | lead => cases token.kind <;> grind
  | property name property => cases token.kind <;> grind
  | value value => dsimp only; split <;> grind
  | invalid => rfl

theorem phase_push_of_isTrivia (h : isTrivia token.kind = true) (span : Span) :
    (d.push token span).phase = d.phase := by
  have hkind : token.kind = .space ∨ token.kind = .comment := by
    cases hkind : token.kind <;> simp_all [isTrivia]
  simp only [push]
  cases hphase : d.phase with
  | lead => rcases hkind with hkind | hkind <;> grind
  | property name property => rcases hkind with hkind | hkind <;> grind [isTrivia]
  | value value => rcases hkind with hkind | hkind <;> grind [isTrivia]
  | invalid => rcases hkind with hkind | hkind <;> rw [hkind]

/-- **Space and comments do not count.** -/
theorem phase_pushPlaced (h : d.phase = e.phase) (ts : List Placed) :
    (d.pushPlaced ts).phase = (e.pushPlaced (significant ts)).phase := by
  induction ts generalizing d e with
  | nil => exact h
  | cons t ts ih =>
    cases ht : t.piece.isTrivia with
    | true =>
      have hskip : significant (t :: ts) = significant ts := by simp [significant, ht]
      rw [hskip]
      exact ih ((phase_push_of_isTrivia ht t.span).trans h)
    | false =>
      have hkeep : significant (t :: ts) = t :: significant ts := by simp [significant, ht]
      rw [hkeep]
      exact ih (phase_push_congr h t.piece.head t.span)

end Declaration

/-! ### Pieces -/

namespace Placed

/-- Pieces with their spans, one after another from a place on. -/
def ofPieces (place : Nat) : List Piece → List Placed
  | [] => []
  | p :: ps =>
    ⟨p, ⟨place, place + Text.byteLength p.text⟩⟩ :: ofPieces (place + Text.byteLength p.text) ps

theorem consecutive_ofPieces {place : Nat} {ps : List Piece} (h : ∀ p ∈ ps, p.text ≠ []) :
    Consecutive place (ofPieces place ps) := by
  induction ps generalizing place with
  | nil => exact .nil place
  | cons p ps ih =>
    have hpos : Text.byteLength p.text ≠ 0 := fun hzero =>
      h p List.mem_cons_self (Text.byteLength_eq_zero.1 hzero)
    have hrest := @ih (place + Text.byteLength p.text) fun q hq => h q (List.mem_cons_of_mem p hq)
    exact .cons (t := ⟨p, ⟨place, place + Text.byteLength p.text⟩⟩) (by dsimp only; omega) hrest

theorem pushPlaced_ofPieces (d : Declaration) (place : Nat) (ps : List Piece) :
    d.pushPlaced (ofPieces place ps) = d.pushAll place ps := by
  induction ps generalizing d place with
  | nil => rfl
  | cons p ps ih => exact ih _ _

end Placed

namespace Declaration

variable {d : Declaration}

/-! ### Values -/

/-- What a value is after some significant tokens behind its colon. -/
structure Value.After (colonStop : Nat) (ts : List Placed) (value : Value) : Prop where
  start : value.start = ts.head?.map fun t => t.span.start
  stop : value.stop = stopFrom colonStop ts
  bang : value.bang = if endsInBang ts then some (stopFrom colonStop ts.dropLast) else none
  important : value.important =
    if endsInMark ts then some (stopFrom colonStop ts.dropLast.dropLast) else none

section Values

variable {name : List Char} {property : Span} {colonStop : Nat} {ts : List Placed} {value : Value}

theorem Value.After.nil (name : List Char) (property : Span) (colonStop : Nat) :
    After colonStop [] (.empty name property colonStop) where
  start := rfl
  stop := rfl
  bang := rfl
  important := rfl

/-- One more token: what the end of a mark has to remember is the end of its beginning. -/
theorem Value.After.push (h : After colonStop ts value) (t : Placed) :
    After colonStop (ts ++ [t]) (value.push t.piece.head.kind t.span) := by
  rw [Value.push_kind value t.piece t.span]
  refine ⟨?_, (stopFrom_concat ts t colonStop).symm, ?_, ?_⟩
  · dsimp only
    rw [h.start]
    cases ts <;> rfl
  · dsimp only
    rw [endsInBang_concat, List.dropLast_concat, h.stop]
  · dsimp only
    rw [endsInMark_concat, List.dropLast_concat, h.bang]
    cases t.piece.isImportant <;> cases endsInBang ts <;> rfl

/-- The tokens of a value, space and comments aside, leave it a value. -/
theorem exists_after (hd : d.phase = .value (.empty name property colonStop))
    (hts : ∀ t ∈ ts, t.piece.isTrivia = false) :
    ∃ value, (d.pushPlaced ts).phase = .value value ∧
      value.After colonStop ts := by
  induction ts using List.reverseRecOn with
  | nil => exact ⟨_, hd, .nil name property colonStop⟩
  | append_singleton ts t ih =>
    obtain ⟨value, hphase, hafter⟩ := ih fun u hu => hts u (List.mem_append_left [t] hu)
    refine ⟨value.push t.piece.head.kind t.span, ?_, hafter.push t⟩
    have ht := hts t List.mem_concat_self
    rw [Piece.isTrivia] at ht
    rw [pushPlaced, List.foldl_concat]
    change ((d.pushPlaced ts).push t.piece.head t.span).phase = _
    simp only [Declaration.push]
    rw [hphase]
    dsimp only
    rw [ht]
    rfl

/-- **The span of a value** reaches from its first significant token to its last that belongs to no
mark. -/
theorem Value.After.span_eq (h : After colonStop ts value) (hts : Ordered ts)
    (hcolon : ∀ t ∈ ts, colonStop ≤ t.span.start) : value.span = cover (withoutMark ts) := by
  have hstop : value.important.getD value.stop = stopFrom colonStop (withoutMark ts) := by
    rw [h.important, h.stop, withoutMark]
    split <;> rfl
  rw [Value.span, h.start, hstop]
  obtain ⟨marked, hmarked⟩ := withoutMark_isPrefix ts
  cases hbody : withoutMark ts with
  | nil =>
    cases ts with
    | nil => rfl
    | cons t ts =>
      -- what the value starts with belongs to its mark
      have hle := hcolon t List.mem_cons_self
      dsimp only [List.head?_cons, Option.map_some]
      rw [stopFrom_nil, if_neg (by omega)]
      rfl
  | cons t body =>
    rw [hbody] at hmarked
    have hlt := (hts.sublist (hmarked ▸ List.sublist_append_left (t :: body) marked)).lt_stopFrom
    rw [← hmarked, stopFrom_cons]
    dsimp only [List.cons_append, List.head?_cons, Option.map_some]
    rw [if_pos hlt]
    rfl

end Values

/-! ### Declarations -/

section Declarations

variable {ts : List Placed}

theorem pushPlaced_of_invalid (h : d.phase = .invalid) (ts : List Placed) :
    (d.pushPlaced ts).phase = .invalid := by
  induction ts generalizing d with
  | nil => exact h
  | cons t ts ih => exact ih (push_of_invalid h t.piece.head t.span)

/-- Significant tokens that begin with a name and a colon make a value of those behind. -/
theorem exists_value {name colon : Placed} (h : beginsDeclaration (name :: colon :: ts) = true)
    (hts : ∀ t ∈ name :: colon :: ts, t.piece.isTrivia = false) (place : Nat) :
    ∃ value, (pushed place (name :: colon :: ts)).phase = .value value ∧
      value.After colon.span.stop ts := by
  rw [beginsDeclaration, Bool.and_eq_true, beq_iff_eq] at h
  obtain ⟨word, hname⟩ := name.piece.exists_of_isName h.1
  have hproperty := phase_push_of_lead (d := startingAt place) rfl
    (hts name List.mem_cons_self) name.span
  rw [hname] at hproperty
  have hvalue := phase_push_of_property hproperty
    (hts colon (List.mem_cons_of_mem name List.mem_cons_self)) colon.span
  rw [if_pos h.2] at hvalue
  exact exists_after hvalue fun t ht =>
    hts t (List.mem_cons_of_mem name (List.mem_cons_of_mem colon ht))

/-- Significant tokens that begin otherwise make no value. -/
theorem phase_pushed_ne_value (h : beginsDeclaration ts = false)
    (hts : ∀ t ∈ ts, t.piece.isTrivia = false) (place : Nat) (value : Value) :
    (pushed place ts).phase ≠ .value value := by
  obtain _ | ⟨name, ts⟩ := ts
  · exact Phase.noConfusion
  · have hfirst := phase_push_of_lead (d := startingAt place) rfl
      (hts name List.mem_cons_self) name.span
    cases hname : name.piece.head.kind with
    | ident word =>
      rw [hname] at hfirst
      obtain _ | ⟨colon, ts⟩ := ts
      · rw [pushed, pushPlaced, List.foldl_cons, List.foldl_nil, hfirst]
        exact Phase.noConfusion
      · have hsecond := phase_push_of_property hfirst
          (hts colon (List.mem_cons_of_mem name List.mem_cons_self)) colon.span
        rw [beginsDeclaration, Piece.isName, hname, Bool.true_and, beq_eq_false_iff_ne] at h
        rw [if_neg h] at hsecond
        have hinvalid := pushPlaced_of_invalid hsecond ts
        exact fun hvalue => Phase.noConfusion (hinvalid.symm.trans hvalue)
    | _ =>
      rw [hname] at hfirst
      have hinvalid := pushPlaced_of_invalid hfirst ts
      exact fun hvalue => Phase.noConfusion (hinvalid.symm.trans hvalue)

end Declarations

/-- **A declaration is what its significant tokens say.** Tokens with consecutive spans make a value
exactly if the significant ones begin with a name and a colon. The span of the value then covers the
significant tokens behind the colon, a mark at their end set aside, and it is missing if nothing is
left of them. What follows the span, up to the end of the last significant token, is the mark and
nothing else, and just this is repeated behind the converted value of a second declaration. -/
theorem pushed_value {place : Nat} {ts : List Placed} (h : Consecutive place ts) :
    ((∃ value, (pushed place ts).phase = .value value) ↔
        beginsDeclaration (significant ts) = true) ∧
      ∀ value, (pushed place ts).phase = .value value →
        value.span = cover (withoutMark ((significant ts).drop 2)) ∧
          (∀ last ∈ (significant ts).getLast?, value.stop = last.span.stop) ∧
          ∀ span ∈ value.span,
            (significant ts).filter (fun t => span.stop ≤ t.span.start) =
                mark ((significant ts).drop 2) ∧
              ∀ css, ∃ front, ∀ converted, (pushed place ts).copyText css value span converted =
                front ++ converted ++ Span.of css ⟨span.stop, value.stop⟩ := by
  obtain ⟨hordered, -⟩ := h.ordered
  have hsignificant : ∀ t ∈ significant ts, t.piece.isTrivia = false := fun t ht => by
    simpa using (List.mem_filter.1 ht).2
  have hwords : Ordered (significant ts) := hordered.sublist List.filter_sublist
  have hphase : (pushed place ts).phase = (pushed place (significant ts)).phase :=
    phase_pushPlaced rfl ts
  generalize significant ts = us at hsignificant hwords hphase
  cases hbegins : beginsDeclaration us with
  | true =>
    obtain _ | ⟨name, _ | ⟨colon, rest⟩⟩ := us
    · cases hbegins
    · cases hbegins
    obtain ⟨value, hvalue, hafter⟩ := exists_value hbegins hsignificant place
    refine ⟨⟨fun _ => rfl, fun _ => ⟨value, hphase.trans hvalue⟩⟩, fun value' hvalue' => ?_⟩
    obtain rfl := Phase.value.inj (hvalue.symm.trans (hphase.symm.trans hvalue'))
    have hcolon := (List.pairwise_cons.1 (List.pairwise_cons.1 hwords.pairwise).2).1
    have hspan := hafter.span_eq hwords.tail.tail hcolon
    refine ⟨hspan, fun last hlast => ?_, fun span hmem => ⟨?_, fun css => ?_⟩⟩
    · rw [hafter.stop, ← stopFrom_cons rest colon name.span.stop, ← stopFrom_cons _ name place,
        stopFrom, hlast]
      rfl
    · rw [hspan] at hmem
      obtain ⟨body, last, hbody, hstop⟩ := exists_of_cover hmem
      have hrest := withoutMark_append_mark rest
      rw [hbody, List.append_assoc] at hrest
      have hall : name :: colon :: rest = (name :: colon :: body) ++ last :: mark rest :=
        congrArg (name :: colon :: ·) hrest.symm
      rw [hall] at hwords
      change List.filter _ (name :: colon :: rest) = mark rest
      rw [hall, hstop]
      exact hwords.filter_behind
    · exact ⟨_, fun converted => rfl⟩
  | false =>
    have hne := phase_pushed_ne_value hbegins hsignificant place
    rw [← hphase] at hne
    exact ⟨⟨fun ⟨value, hvalue⟩ => absurd hvalue (hne value), fun h => absurd h Bool.false_ne_true⟩,
      fun value hvalue => absurd hvalue (hne value)⟩

/-- A mark in capital letters with a comment in it. -/
theorem pushed_value_comment :
    ∃ ts, Consecutive 0 ts ∧
      ∃ value, (pushed 0 ts).phase = .value value ∧ value.span = some ⟨11, 15⟩ ∧
        value.stop = 34 := by
  have hconsecutive := @consecutive_ofPieces 0
    ((tokens "transform: none ! /* c */IMPORTANT ".toList).map (Piece.mk · [])) (by decide +kernel)
  obtain ⟨hvalue, hall⟩ := pushed_value hconsecutive
  obtain ⟨value, hphase⟩ := hvalue.2 (by decide +kernel)
  obtain ⟨hspan, hstop, -⟩ := hall value hphase
  refine ⟨_, hconsecutive, value, hphase, hspan.trans (by decide +kernel), ?_⟩
  exact hstop ⟨⟨⟨.ident "IMPORTANT".toList, "IMPORTANT".toList⟩, []⟩, ⟨25, 34⟩⟩ (by decide +kernel)

end Declaration

/-! ### Sheets -/

/-- **Every declaration of a sheet is made of tokens with consecutive spans.** -/
theorem exists_pushed_of_mem_declarations {css : List Char} {d : Declaration}
    (h : d ∈ declarations css) :
    ∃ place ts, Consecutive place ts ∧ d = Declaration.pushed place ts := by
  obtain ⟨l, hl⟩ := exists_splits css
  rw [hl.declarations_eq, List.mem_map] at h
  obtain ⟨s, hs, rfl⟩ := h
  exact ⟨s.place, ofPieces s.place s.parts, consecutive_ofPieces (hl.text_ne_nil hs),
    (pushPlaced_ofPieces _ s.place s.parts).symm⟩

end Stylesheet

end CssTransform
