import CssTransform.Proofs.Stylesheet.LevelTour
import CssTransform.Proofs.Stylesheet.Written
import Mathlib.Data.List.Induction

/-!
# Phases of a declaration

The phases that a declaration goes through, token by token, come to what reading the whole segment
tells: it has a value if the segment is a declaration, and the spans that are kept of it are those
of the parts of the declaration as it is written.

## Main definitions

* `Declaration.Value.ofParts` — the value after some pieces, by their reading from behind

## Main results

* `Declaration.pushAll_value` — the invariant of the pieces of a value
* `Segment.phase_of_written?` — the phase of a segment that is a declaration
* `Segment.phase_ne_value` — the phase of one that is none
-/

namespace CssTransform

namespace Stylesheet

namespace Declaration

variable {d : Declaration} {ps : List Piece}

/-! ### Space, comments, and pieces that do not fit -/

theorem push_of_invalid (h : d.phase = .invalid) (t : Token) (span : Span) :
    (d.push t span).phase = .invalid := by
  simp only [push]
  rw [h]

theorem pushAll_of_invalid (h : d.phase = .invalid) (place : Nat) :
    (d.pushAll place ps).phase = .invalid := by
  induction ps generalizing d place with
  | nil => exact h
  | cons p ps ih => exact ih (push_of_invalid h p.head _) _

theorem pushAll_of_lead (h : d.phase = .lead) (hps : ∀ p ∈ ps, p.isTrivia = true) (place : Nat) :
    (d.pushAll place ps).phase = .lead := by
  induction ps generalizing d place with
  | nil => exact h
  | cons p ps ih =>
    refine ih ?_ (fun q hq => hps q (List.mem_cons_of_mem p hq)) _
    have hp := hps p List.mem_cons_self
    simp only [Piece.isTrivia, Declaration.isTrivia] at hp
    simp only [push]
    rw [h]
    split at hp
    · next hkind =>
      rw [hkind]
      dsimp only
      split
      · rfl
      · exact h
    · next hkind =>
      rw [hkind]
      exact h
    · cases hp

theorem pushAll_of_property {name : List Char} {span : Span} (h : d.phase = .property name span)
    (hps : ∀ p ∈ ps, p.isTrivia = true) (place : Nat) : d.pushAll place ps = d := by
  induction ps generalizing place with
  | nil => rfl
  | cons p ps ih =>
    have hp := hps p List.mem_cons_self
    simp only [Piece.isTrivia] at hp
    have hpush : d.push p.head ⟨place, place + Text.byteLength p.text⟩ = d := by
      simp only [push]
      rw [h]
      split <;> simp_all [isTrivia]
    rw [pushAll, hpush]
    exact ih (fun q hq => hps q (List.mem_cons_of_mem p hq)) _

/-! ### Values -/

/-- The value after some pieces behind its colon, by their reading from behind. -/
def Value.ofParts (name : List Char) (property : Span) (colonStop : Nat) (after : List Piece) :
    Value where
  name := name
  property := property
  start :=
    if after.all Piece.isTrivia then none
    else some (colonStop + Text.byteLength (partsText (leadTrivia after)))
  stop := colonStop + Text.byteLength (partsText (skipTrivia after.reverse).reverse)
  bang := (withoutBang? after.reverse).map fun behind =>
    colonStop + Text.byteLength (partsText behind.reverse)
  important := (withoutMark? after.reverse).map fun behind =>
    colonStop + Text.byteLength (partsText behind.reverse)

theorem Value.push_kind (value : Value) (p : Piece) (span : Span) :
    value.push p.head.kind span =
      { value with
        start := some (value.start.getD span.start)
        stop := span.stop
        bang := if p.isBang then some value.stop else none
        important := if p.isImportant then value.bang else none } := by
  unfold push Piece.isBang Piece.isImportant
  split
  · next hkind => simp [hkind]
  · next name hkind =>
    rw [hkind]
    split <;> simp_all
  · next hbang hident =>
    have hne : (p.head.kind == .delim '!') = false := beq_eq_false_iff_ne.2 hbang
    rw [hne]
    simp

theorem leadTrivia_concat {after : List Piece} (h : after.all Piece.isTrivia = false) (p : Piece) :
    leadTrivia (after ++ [p]) = leadTrivia after := by
  induction after with
  | nil => cases h
  | cons q after ih =>
    cases hq : q.isTrivia with
    | false => simp [leadTrivia, hq]
    | true =>
      rw [List.all_cons, hq, Bool.true_and] at h
      have := ih h
      simp_all [leadTrivia]

theorem leadTrivia_of_all {after : List Piece} (h : after.all Piece.isTrivia = true) (p : Piece)
    (hp : p.isTrivia = false) : leadTrivia (after ++ [p]) = after :=
  leadTrivia_append (List.all_eq_true.1 h) hp []

/-- One more piece that is neither space nor comment. -/
theorem Value.ofParts_concat (name : List Char) (property : Span) (colonStop : Nat)
    (after : List Piece) {p : Piece} (hp : p.isTrivia = false) :
    Value.ofParts name property colonStop (after ++ [p]) =
      (Value.ofParts name property colonStop after).push p.head.kind
        ⟨colonStop + Text.byteLength (partsText after),
          colonStop + Text.byteLength (partsText after) + Text.byteLength p.text⟩ := by
  have hreverse : (after ++ [p]).reverse = p :: after.reverse := by simp
  rw [Value.push_kind]
  simp only [ofParts]
  rw [hreverse, skipTrivia_cons hp, withoutBang?_cons hp, withoutMark?_cons hp]
  cases hall : after.all Piece.isTrivia with
  | true =>
    rw [leadTrivia_of_all hall p hp]
    cases p.isBang <;> cases p.isImportant <;> simp [hall, hp, Nat.add_assoc]
  | false =>
    rw [leadTrivia_concat hall]
    cases p.isBang <;> cases p.isImportant <;> simp [hall, Nat.add_assoc]

/-- Space and comments change nothing. -/
theorem Value.ofParts_concat_trivia (name : List Char) (property : Span) (colonStop : Nat)
    (after : List Piece) {p : Piece} (hp : p.isTrivia = true) :
    Value.ofParts name property colonStop (after ++ [p]) =
      Value.ofParts name property colonStop after := by
  have hreverse : (after ++ [p]).reverse = p :: after.reverse := by simp
  simp only [ofParts]
  rw [hreverse, skipTrivia_cons_of_isTrivia hp, withoutBang?_cons_of_isTrivia hp,
    withoutMark?_cons_of_isTrivia hp]
  cases hall : after.all Piece.isTrivia with
  | true => simp [hall, hp]
  | false =>
    rw [leadTrivia_concat hall]
    simp [hall]

theorem pushAll_value {name : List Char} {property : Span} {colonStop : Nat}
    (h : d.phase = .value (.empty name property colonStop)) (after : List Piece) :
    d.pushAll colonStop after =
      { d with phase := .value (.ofParts name property colonStop after) } := by
  induction after using List.reverseRecOn with
  | nil =>
    rw [pushAll]
    cases d
    cases h
    rfl
  | append_singleton after p ih =>
    rw [pushAll_append, ih, pushAll, pushAll, push]
    dsimp only
    cases hp : p.isTrivia with
    | true =>
      rw [Value.ofParts_concat_trivia name property colonStop after hp]
      simp only [Piece.isTrivia] at hp
      rw [if_pos hp]
    | false =>
      rw [Value.ofParts_concat name property colonStop after hp]
      simp only [Piece.isTrivia] at hp
      rw [if_neg (by simp [hp])]

end Declaration

/-! ### Segments -/

/-- The phase after the first token that is neither space nor comment. -/
theorem Declaration.phase_push_of_lead {d : Declaration} {t : Token} (h : d.phase = .lead)
    (ht : isTrivia t.kind = false) (span : Span) :
    (d.push t span).phase =
      match t.kind with
      | .ident _ => .property t.text span
      | _ => .invalid := by
  rw [push, h]
  cases hkind : t.kind <;> simp_all [Declaration.isTrivia]

/-- The phase after a property and the next token that is neither space nor comment. -/
theorem Declaration.phase_push_of_property {d : Declaration} {t : Token} {name : List Char}
    {property : Span} (h : d.phase = .property name property) (ht : isTrivia t.kind = false)
    (span : Span) :
    (d.push t span).phase =
      if t.kind = .colon then .value (.empty name property span.stop) else .invalid := by
  rw [push, h]
  cases hkind : t.kind <;> simp_all [Declaration.isTrivia]

/-- The phase after the space in front and the first piece after it. -/
theorem Declaration.phase_of_first (lead : List Piece) (p : Piece) (place : Nat)
    (hlead : ∀ q ∈ lead, q.isTrivia = true) (hp : p.isTrivia = false) :
    ((Declaration.startingAt place).pushAll place (lead ++ [p])).phase =
      match p.head.kind with
      | .ident _ => .property p.head.text
          ⟨place + Text.byteLength (partsText lead),
            place + Text.byteLength (partsText lead) + Text.byteLength p.text⟩
      | _ => .invalid := by
  rw [pushAll_append, pushAll, pushAll]
  exact phase_push_of_lead (pushAll_of_lead rfl hlead place) hp _

/-- The phase after a property, the space behind it and the first piece after that. -/
theorem Declaration.phase_of_second {d : Declaration} {name : List Char} {property : Span}
    (h : d.phase = .property name property) (gap : List Piece) (p : Piece) (place : Nat)
    (hgap : ∀ q ∈ gap, q.isTrivia = true) (hp : p.isTrivia = false) :
    (d.pushAll place (gap ++ [p])).phase =
      if p.head.kind = .colon then
        .value (.empty name property
          (place + Text.byteLength (partsText gap) + Text.byteLength p.text))
      else .invalid := by
  rw [pushAll_append, pushAll, pushAll, pushAll_of_property h hgap]
  exact phase_push_of_property h hp _

namespace Segment

variable {place : Nat} {ps : List Piece}

/-- A segment that is no declaration has no value. -/
theorem phase_ne_value (h : written? ps = none) (value : Declaration.Value) :
    (Segment.declaration ⟨place, ps⟩).phase ≠ .value value := by
  have hps := leadTrivia_append_skipTrivia ps
  rw [written?] at h
  split at h
  · next hskip =>
    rw [hskip, List.append_nil] at hps
    rw [declaration, Declaration.pushAll_of_lead rfl (hps ▸ isTrivia_of_mem_leadTrivia)]
    simp
  · next property more hskip =>
    rw [hskip] at hps
    have hproperty := isTrivia_of_skipTrivia_eq (hskip ▸ skipTrivia_skipTrivia ps)
    have hphase := Declaration.phase_of_first (leadTrivia ps) property place
      isTrivia_of_mem_leadTrivia hproperty
    have hdeclaration : Segment.declaration ⟨place, ps⟩ =
        ((Declaration.startingAt place).pushAll place (leadTrivia ps ++ [property])).pushAll
          (place + Text.byteLength (partsText (leadTrivia ps ++ [property]))) more := by
      rw [← Declaration.pushAll_append, declaration]
      simp [hps]
    rw [hdeclaration]
    split at h
    · next name colon after hname hmore =>
      have hcolon := isTrivia_of_skipTrivia_eq (hmore ▸ skipTrivia_skipTrivia more)
      have hgap := leadTrivia_append_skipTrivia more
      rw [hmore] at hgap
      rw [hname] at hphase
      have hsecond := Declaration.phase_of_second hphase (leadTrivia more) colon
        (place + Text.byteLength (partsText (leadTrivia ps ++ [property])))
        isTrivia_of_mem_leadTrivia hcolon
      dsimp only at h
      split at h
      · cases h
      · next hne =>
        rw [if_neg hne] at hsecond
        have hsplit : more = (leadTrivia more ++ [colon]) ++ after := by simp [hgap]
        rw [hsplit, Declaration.pushAll_append, Declaration.pushAll_of_invalid hsecond]
        simp
    · next hnone =>
      cases hkind : property.head.kind with
      | ident name =>
        rw [hkind] at hphase
        cases hmore : skipTrivia more with
        | nil =>
          have hgap := leadTrivia_append_skipTrivia more
          rw [hmore, List.append_nil] at hgap
          rw [Declaration.pushAll_of_property hphase (hgap ▸ isTrivia_of_mem_leadTrivia), hphase]
          simp
        | cons colon after => exact absurd hmore (hnone name colon after hkind)
      | _ =>
        rw [hkind] at hphase
        rw [Declaration.pushAll_of_invalid hphase]
        simp

/-- The end of the colon of a declaration at some place. -/
def colonStop (place : Nat) (w : Written) : Nat :=
  place + Text.byteLength (partsText (w.lead ++ w.property :: (w.gap ++ [w.colon])))

/-- **A segment that is a declaration has its value**, and the spans that are kept are those of the
parts as they are written. -/
theorem phase_of_written? {w : Written} (h : written? ps = some w) :
    (Segment.declaration ⟨place, ps⟩).phase =
      .value (.ofParts w.property.head.text
        ⟨place + Text.byteLength (partsText w.lead),
          place + Text.byteLength (partsText w.lead) + Text.byteLength w.property.text⟩
        (colonStop place w) (w.indent ++ (w.value ++ w.ending))) := by
  obtain ⟨hw, rfl⟩ := isReading_of_written? h
  obtain ⟨name, hname⟩ := hw.property
  have hfirst := Declaration.phase_of_first w.lead w.property place hw.lead hw.isTrivia_property
  rw [hname] at hfirst
  have hsecond := Declaration.phase_of_second hfirst w.gap w.colon
    (place + Text.byteLength (partsText (w.lead ++ [w.property]))) hw.gap hw.isTrivia_colon
  rw [if_pos hw.colon, ← Declaration.pushAll_append] at hsecond
  have hparts : w.parts = ((w.lead ++ [w.property]) ++ (w.gap ++ [w.colon])) ++
      (w.indent ++ (w.value ++ w.ending)) := by simp [Written.parts]
  have hstop : colonStop place w =
      place + Text.byteLength (partsText ((w.lead ++ [w.property]) ++ (w.gap ++ [w.colon]))) := by
    simp [colonStop]
  have hstop' : place + Text.byteLength (partsText (w.lead ++ [w.property])) +
      Text.byteLength (partsText w.gap) + Text.byteLength w.colon.text = colonStop place w := by
    simp [colonStop, Nat.add_assoc]
  rw [hstop'] at hsecond
  rw [declaration, hparts, Declaration.pushAll_append, ← hstop, Declaration.pushAll_value hsecond]

end Segment

end Stylesheet

end CssTransform
