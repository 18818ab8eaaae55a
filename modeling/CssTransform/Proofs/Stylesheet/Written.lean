import CssTransform.Proofs.Stylesheet.Level

/-!
# Declarations as they are written

A segment is read here as a whole, without phases. It is a declaration if its pieces, space and
comments aside, begin with a name and a colon. Its value reaches from the first to the last piece
that is neither space nor comment, an importance mark at the end set aside.

## Which choice is load-bearing

The end of a value is found from behind, so lists of pieces are given last first wherever an end is
looked for. The phases of a declaration keep just what this reading from behind gives for the pieces
so far, and that is the invariant that connects the two.

## Main definitions

* `skipTrivia`, `leadTrivia` — space and comments in front
* `withoutBang?`, `withoutMark?`, `body` — the end of a value, read from behind
* `Written` — a declaration as it is written, with `Written.parts`
* `written?` — the declaration that a segment is, if it is one

## Main results

* `isReading_of_written?` — the parts of a declaration are what they are called, and nothing of the
  segment is lost
* `Written.IsReading.written?_parts` — such parts are read again as they are
* `Written.IsReading.replace` — another piece in place of the value is read as the value
-/

namespace CssTransform

namespace Stylesheet

open Declaration (isTrivia importantName)

/-! ### Reading from behind -/

namespace Piece

/-- Space or a comment. -/
def isTrivia (p : Piece) : Bool := Declaration.isTrivia p.head.kind

/-- The first token of an importance mark. -/
def isBang (p : Piece) : Bool := p.head.kind == .delim '!'

/-- The word of an importance mark. -/
def isImportant (p : Piece) : Bool :=
  match p.head.kind with
  | .ident name => name.map Char.toLower == importantName
  | _ => false

theorem isTrivia_of_isBang {p : Piece} (h : p.isBang = true) : p.isTrivia = false := by
  rw [isBang, beq_iff_eq] at h
  rw [isTrivia, h]
  rfl

theorem isTrivia_of_isImportant {p : Piece} (h : p.isImportant = true) : p.isTrivia = false := by
  rw [isImportant] at h
  rw [isTrivia]
  split at h
  · next name heq => rw [heq]; rfl
  · cases h

end Piece

section Behind

/-- Pieces without the space and comments that they begin with. -/
def skipTrivia (ps : List Piece) : List Piece := ps.dropWhile Piece.isTrivia

/-- The space and comments that pieces begin with. -/
def leadTrivia (ps : List Piece) : List Piece := ps.takeWhile Piece.isTrivia

/-- Pieces, last first, without a mark that has only begun at their end. -/
def withoutBang? (behind : List Piece) : Option (List Piece) :=
  match skipTrivia behind with
  | [] => none
  | p :: before => if p.isBang then some (skipTrivia before) else none

/-- Pieces, last first, without an importance mark at their end, if there is one. -/
def withoutMark? (behind : List Piece) : Option (List Piece) :=
  match skipTrivia behind with
  | [] => none
  | p :: before => if p.isImportant then withoutBang? before else none

/-- Pieces, last first, without what may follow a value. -/
def body (behind : List Piece) : List Piece := (withoutMark? behind).getD (skipTrivia behind)

variable {p : Piece} {behind before ending : List Piece}

theorem skipTrivia_cons_of_isTrivia (h : p.isTrivia = true) (behind : List Piece) :
    skipTrivia (p :: behind) = skipTrivia behind := List.dropWhile_cons_of_pos h

theorem skipTrivia_cons (h : p.isTrivia = false) (behind : List Piece) :
    skipTrivia (p :: behind) = p :: behind := List.dropWhile_cons_of_neg (by simp [h])

theorem withoutBang?_cons_of_isTrivia (h : p.isTrivia = true) (behind : List Piece) :
    withoutBang? (p :: behind) = withoutBang? behind := by
  rw [withoutBang?, skipTrivia_cons_of_isTrivia h]
  rfl

theorem withoutMark?_cons_of_isTrivia (h : p.isTrivia = true) (behind : List Piece) :
    withoutMark? (p :: behind) = withoutMark? behind := by
  rw [withoutMark?, skipTrivia_cons_of_isTrivia h]
  rfl

theorem withoutBang?_cons (h : p.isTrivia = false) (behind : List Piece) :
    withoutBang? (p :: behind) = if p.isBang then some (skipTrivia behind) else none := by
  rw [withoutBang?, skipTrivia_cons h]

theorem withoutMark?_cons (h : p.isTrivia = false) (behind : List Piece) :
    withoutMark? (p :: behind) = if p.isImportant then withoutBang? behind else none := by
  rw [withoutMark?, skipTrivia_cons h]

theorem isTrivia_of_mem_leadTrivia {ps : List Piece} : ∀ p ∈ leadTrivia ps, p.isTrivia = true :=
  fun p hp => List.all_eq_true.1 (List.all_takeWhile ..) p hp

theorem leadTrivia_append_skipTrivia (ps : List Piece) : leadTrivia ps ++ skipTrivia ps = ps :=
  List.takeWhile_append_dropWhile

theorem exists_append_skipTrivia (ps : List Piece) :
    ∃ trivia, (∀ p ∈ trivia, p.isTrivia = true) ∧ ps = trivia ++ skipTrivia ps :=
  ⟨leadTrivia ps, isTrivia_of_mem_leadTrivia, (leadTrivia_append_skipTrivia ps).symm⟩

theorem skipTrivia_append (h : ∀ p ∈ ending, p.isTrivia = true) (behind : List Piece) :
    skipTrivia (ending ++ behind) = skipTrivia behind := by
  induction ending with
  | nil => rfl
  | cons p ending ih =>
    rw [List.cons_append, skipTrivia_cons_of_isTrivia (h p List.mem_cons_self)]
    exact ih fun q hq => h q (List.mem_cons_of_mem p hq)

/-- What may follow a value, last first: space and comments, and a mark before them. -/
inductive IsEnding : List Piece → Prop
  | plain {trivia : List Piece} (h : ∀ p ∈ trivia, p.isTrivia = true) : IsEnding trivia
  | marked {after between before : List Piece} {important bang : Piece}
      (hafter : ∀ p ∈ after, p.isTrivia = true) (himportant : important.isImportant = true)
      (hbetween : ∀ p ∈ between, p.isTrivia = true) (hbang : bang.isBang = true)
      (hbefore : ∀ p ∈ before, p.isTrivia = true) :
      IsEnding (after ++ important :: (between ++ bang :: before))

/-- Of an ending only the space and comments at its end are passed over. -/
theorem IsEnding.skipTrivia_append (h : IsEnding ending) {q : Piece} (htrivia : q.isTrivia = false)
    (value : List Piece) :
    skipTrivia (ending ++ q :: value) = skipTrivia ending ++ q :: value := by
  cases h with
  | plain h =>
    have hnil := Stylesheet.skipTrivia_append h []
    rw [List.append_nil] at hnil
    rw [Stylesheet.skipTrivia_append h, skipTrivia_cons htrivia, hnil]
    rfl
  | marked hafter himportant hbetween hbang hbefore =>
    have hcons := skipTrivia_cons (Piece.isTrivia_of_isImportant himportant)
    rw [List.append_assoc, Stylesheet.skipTrivia_append hafter, List.cons_append, hcons,
      Stylesheet.skipTrivia_append hafter, hcons]
    rfl

/-- A value with an ending behind it is the body. -/
theorem IsEnding.body_append (h : IsEnding ending) {q : Piece} (htrivia : q.isTrivia = false)
    (hq : q.isImportant = false) (value : List Piece) :
    body (ending ++ q :: value) = q :: value := by
  cases h with
  | plain h =>
    rw [body, withoutMark?, Stylesheet.skipTrivia_append h, skipTrivia_cons htrivia]
    dsimp only
    rw [hq]
    rfl
  | marked hafter himportant hbetween hbang hbefore =>
    rw [body, withoutMark?, List.append_assoc, Stylesheet.skipTrivia_append hafter,
      List.cons_append, skipTrivia_cons (Piece.isTrivia_of_isImportant himportant)]
    dsimp only
    rw [if_pos himportant, withoutBang?, List.append_assoc, Stylesheet.skipTrivia_append hbetween,
      List.cons_append, skipTrivia_cons (Piece.isTrivia_of_isBang hbang)]
    dsimp only
    rw [if_pos hbang, Stylesheet.skipTrivia_append hbefore, skipTrivia_cons htrivia]
    rfl

theorem skipTrivia_skipTrivia (behind : List Piece) :
    skipTrivia (skipTrivia behind) = skipTrivia behind := by
  obtain ⟨trivia, htrivia, h⟩ := exists_append_skipTrivia behind
  have hskipTrivia := skipTrivia_append htrivia (skipTrivia behind)
  rw [← h] at hskipTrivia
  exact hskipTrivia.symm

theorem body_skipTrivia (behind : List Piece) : body (skipTrivia behind) = body behind := by
  rw [body, body, withoutMark?, withoutMark?, skipTrivia_skipTrivia]

theorem isTrivia_of_skipTrivia_eq {value : List Piece} (h : skipTrivia (p :: value) = p :: value) :
    p.isTrivia = false := by
  cases hp : p.isTrivia with
  | false => rfl
  | true =>
    rw [skipTrivia_cons_of_isTrivia hp] at h
    have hlength : (skipTrivia value).length ≤ value.length := (List.dropWhile_sublist _).length_le
    rw [h, List.length_cons] at hlength
    omega

theorem exists_of_withoutBang? {rest : List Piece} (h : withoutBang? behind = some rest) :
    ∃ between bang before, (∀ p ∈ between, p.isTrivia = true) ∧ bang.isBang = true ∧
      (∀ p ∈ before, p.isTrivia = true) ∧ behind = between ++ bang :: (before ++ rest) ∧
      skipTrivia rest = rest := by
  obtain ⟨between, hbetween, hbehind⟩ := exists_append_skipTrivia behind
  rw [withoutBang?] at h
  split at h
  · cases h
  · next bang more hmore =>
    split at h
    · next hbang =>
      obtain ⟨before, hbefore, hmoreEq⟩ := exists_append_skipTrivia more
      obtain rfl := Option.some.inj h
      exact ⟨between, bang, before, hbetween, hbang, hbefore, by rw [← hmoreEq, ← hmore, ← hbehind],
        skipTrivia_skipTrivia more⟩
    · cases h

theorem exists_of_withoutMark? {rest : List Piece} (h : withoutMark? behind = some rest) :
    ∃ ending, IsEnding ending ∧ behind = ending ++ rest ∧ skipTrivia rest = rest := by
  obtain ⟨after, hafter, hbehind⟩ := exists_append_skipTrivia behind
  rw [withoutMark?] at h
  split at h
  · cases h
  · next important more hmore =>
    split at h
    · next himportant =>
      obtain ⟨between, bang, before, hbetween, hbang, hbefore, hmoreEq, hrest⟩ :=
        exists_of_withoutBang? h
      refine ⟨_, .marked hafter himportant hbetween hbang hbefore, ?_, hrest⟩
      rw [hbehind, hmore, hmoreEq]
      simp
    · cases h

/-- Every list of pieces is its body with an ending after it, and the body ends in no space and no
comment. -/
theorem exists_ending (behind : List Piece) :
    ∃ ending, IsEnding ending ∧ behind = ending ++ body behind ∧
      skipTrivia (body behind) = body behind := by
  rw [body]
  cases hmark : withoutMark? behind with
  | none =>
    obtain ⟨after, hafter, hbehind⟩ := exists_append_skipTrivia behind
    exact ⟨after, .plain hafter, hbehind, skipTrivia_skipTrivia behind⟩
  | some rest => exact exists_of_withoutMark? hmark

theorem leadTrivia_append {trivia : List Piece} (h : ∀ p ∈ trivia, p.isTrivia = true)
    (hp : p.isTrivia = false) (rest : List Piece) : leadTrivia (trivia ++ p :: rest) = trivia := by
  have hall := leadTrivia_append_skipTrivia (trivia ++ p :: rest)
  rw [skipTrivia_append h, skipTrivia_cons hp] at hall
  exact List.append_cancel_right hall

end Behind

/-! ### Declarations -/

/-- A declaration as it is written. -/
structure Written where
  /-- Space and comments in front. -/
  lead : List Piece
  property : Piece
  /-- Space and comments before the colon. -/
  gap : List Piece
  colon : Piece
  /-- Space and comments before the value. -/
  indent : List Piece
  value : List Piece
  /-- What follows the value: space, comments and an importance mark. -/
  ending : List Piece
deriving DecidableEq

namespace Written

/-- The pieces of a declaration. -/
def parts (w : Written) : List Piece :=
  w.lead ++ w.property :: (w.gap ++ w.colon :: (w.indent ++ (w.value ++ w.ending)))

/-- What stands between the space in front and the value. -/
def head (w : Written) : List Piece := w.property :: (w.gap ++ w.colon :: w.indent)

theorem parts_eq (w : Written) : w.parts = w.lead ++ (w.head ++ (w.value ++ w.ending)) := by
  simp [parts, head]

/-- The importance mark with what stands between it and the value, or nothing. -/
def mark (w : Written) : List Piece := (skipTrivia w.ending.reverse).reverse

/-- What makes the parts of a declaration what they are called. -/
structure IsReading (w : Written) : Prop where
  lead : ∀ p ∈ w.lead, p.isTrivia = true
  property : ∃ name, w.property.head.kind = .ident name
  gap : ∀ p ∈ w.gap, p.isTrivia = true
  colon : w.colon.head.kind = .colon
  indent : ∀ p ∈ w.indent, p.isTrivia = true
  /-- A value begins with a piece that is neither space nor comment. -/
  front : skipTrivia w.value = w.value
  /-- A value ends with a piece that is neither space nor comment and belongs to no mark. -/
  back : body (w.indent ++ (w.value ++ w.ending)).reverse = (w.indent ++ w.value).reverse

end Written

/-- The declaration that a segment is, if it is one. -/
def written? (ps : List Piece) : Option Written :=
  match skipTrivia ps with
  | [] => none
  | property :: more =>
    match property.head.kind, skipTrivia more with
    | .ident _, colon :: after =>
      let value := (body after.reverse).reverse
      if colon.head.kind = .colon then
        some {
          lead := leadTrivia ps
          property
          gap := leadTrivia more
          colon
          indent := leadTrivia value
          value := skipTrivia value
          ending := after.drop value.length }
      else none
    | _, _ => none

theorem body_reverse_append_drop (after : List Piece) :
    (body after.reverse).reverse ++ after.drop (body after.reverse).reverse.length = after := by
  obtain ⟨ending, -, h, -⟩ := exists_ending after.reverse
  have hafter := congrArg List.reverse h
  rw [List.reverse_reverse, List.reverse_append] at hafter
  generalize (body after.reverse).reverse = front at hafter
  rw [hafter, List.drop_left]

theorem isReading_of_written? {ps : List Piece} {w : Written} (h : written? ps = some w) :
    w.IsReading ∧ w.parts = ps := by
  rw [written?] at h
  split at h
  · cases h
  · next property more hps =>
    split at h
    · next name colon after hname hmore =>
      dsimp only at h
      split at h
      · next hcolon =>
        obtain rfl := Option.some.inj h
        have hvalue := leadTrivia_append_skipTrivia (body after.reverse).reverse
        have hafter := body_reverse_append_drop after
        refine ⟨⟨isTrivia_of_mem_leadTrivia, ⟨name, hname⟩, isTrivia_of_mem_leadTrivia, hcolon,
          isTrivia_of_mem_leadTrivia, skipTrivia_skipTrivia _, ?_⟩, ?_⟩
        · dsimp only
          rw [← List.append_assoc, hvalue, hafter, List.reverse_reverse]
        · dsimp only [Written.parts]
          rw [← List.append_assoc (leadTrivia (body after.reverse).reverse), hvalue, hafter,
            ← hmore, leadTrivia_append_skipTrivia, ← hps, leadTrivia_append_skipTrivia]
      · cases h
    · cases h

namespace Written

variable {w : Written}

theorem IsReading.isTrivia_property (h : w.IsReading) : w.property.isTrivia = false := by
  obtain ⟨name, hname⟩ := h.property
  rw [Piece.isTrivia, hname]
  rfl

theorem IsReading.isTrivia_colon (h : w.IsReading) : w.colon.isTrivia = false := by
  rw [Piece.isTrivia, h.colon]
  rfl

/-- A declaration is read again as it is. -/
theorem IsReading.written?_parts (h : w.IsReading) : written? w.parts = some w := by
  obtain ⟨name, hname⟩ := h.property
  have hskip : skipTrivia w.parts =
      w.property :: (w.gap ++ w.colon :: (w.indent ++ (w.value ++ w.ending))) := by
    rw [parts, skipTrivia_append h.lead, skipTrivia_cons h.isTrivia_property]
  have hlead : leadTrivia w.parts = w.lead := leadTrivia_append h.lead h.isTrivia_property _
  have hskip' : skipTrivia (w.gap ++ w.colon :: (w.indent ++ (w.value ++ w.ending))) =
      w.colon :: (w.indent ++ (w.value ++ w.ending)) := by
    rw [skipTrivia_append h.gap, skipTrivia_cons h.isTrivia_colon]
  have hgap := leadTrivia_append h.gap h.isTrivia_colon (w.indent ++ (w.value ++ w.ending))
  have hvalue : skipTrivia (w.indent ++ w.value) = w.value := by
    rw [skipTrivia_append h.indent, h.front]
  have hindent : leadTrivia (w.indent ++ w.value) = w.indent := by
    have hall := leadTrivia_append_skipTrivia (w.indent ++ w.value)
    rw [hvalue] at hall
    exact List.append_cancel_right hall
  have hending :
      (w.indent ++ (w.value ++ w.ending)).drop (w.indent ++ w.value).length = w.ending := by
    rw [← List.append_assoc, List.drop_left]
  rw [written?, hskip]
  dsimp only
  rw [hname, hskip']
  dsimp only
  rw [if_pos h.colon, h.back, List.reverse_reverse, hlead, hgap, hindent, hvalue, hending]

/-- What stands after the value is an ending. -/
theorem IsReading.isEnding (h : w.IsReading) : IsEnding w.ending.reverse := by
  obtain ⟨ending, hending, hall, -⟩ := exists_ending (w.indent ++ (w.value ++ w.ending)).reverse
  rw [h.back, ← List.append_assoc, List.reverse_append] at hall
  rwa [List.append_cancel_right hall]

/-- From behind, the end of a declaration is passed over up to its mark. -/
theorem IsReading.skipTrivia_reverse (h : w.IsReading) :
    skipTrivia (w.indent ++ (w.value ++ w.ending)).reverse =
      (w.indent ++ (w.value ++ w.mark)).reverse := by
  have hbody := (exists_ending (w.indent ++ (w.value ++ w.ending)).reverse).choose_spec.2.2
  rw [h.back] at hbody
  have hleft : (w.indent ++ (w.value ++ w.ending)).reverse =
      w.ending.reverse ++ (w.indent ++ w.value).reverse := by simp
  have hright : (w.indent ++ (w.value ++ w.mark)).reverse =
      skipTrivia w.ending.reverse ++ (w.indent ++ w.value).reverse := by simp [mark]
  rw [hleft, hright]
  cases hvalue : (w.indent ++ w.value).reverse with
  | nil => rw [List.append_nil, List.append_nil]
  | cons q value =>
    rw [hvalue] at hbody
    exact h.isEnding.skipTrivia_append (isTrivia_of_skipTrivia_eq hbody) value

/-- Another piece in place of the value. -/
def replace (w : Written) (q : Piece) : Written := { w with value := [q] }

/-- Another piece in place of the value is read as the value. -/
theorem IsReading.replace (h : w.IsReading) {q : Piece} (htrivia : q.isTrivia = false)
    (hq : q.isImportant = false) : (w.replace q).IsReading where
  lead := h.lead
  property := h.property
  gap := h.gap
  colon := h.colon
  indent := h.indent
  front := skipTrivia_cons htrivia []
  back := by
    have hbody := h.isEnding.body_append htrivia hq w.indent.reverse
    simpa [Written.replace] using hbody

end Written

end Stylesheet

end CssTransform
