import CssTransform.Proofs.Stylesheet.Level

/-!
# A walk over a level

A walk that begins a level meets its segments and blocks in order and then, if the level is closed,
leaves it. The proof follows the derivation that the tokens are a level: what a walk does at the end
of a segment, at a block that it enters and at one that it passes over is told in one lemma each.

## Main definitions

* `Declaration.pushAll`, `Segment.declaration` — the declaration that a segment is
* `Walk.AtStart` — a walk at the beginning of a segment

## Main results

* `Level.IsSplit.tour_closed`, `Level.IsSplit.tour_open` — what a walk meets in a level
* `Splits.tour_eq` — what a walk meets in a sheet
* `Splits.declarations_eq` — the declarations of a sheet are its segments
-/

namespace CssTransform

namespace Stylesheet

/-- Pieces that come one after another from a place on. -/
def Declaration.pushAll (d : Declaration) (place : Nat) : List Piece → Declaration
  | [] => d
  | p :: ps =>
    (d.push p.head ⟨place, place + Text.byteLength p.text⟩).pushAll
      (place + Text.byteLength p.text) ps

theorem Declaration.pushAll_append (d : Declaration) (place : Nat) (ps qs : List Piece) :
    d.pushAll place (ps ++ qs) =
      (d.pushAll place ps).pushAll (place + Text.byteLength (partsText ps)) qs := by
  induction ps generalizing d place with
  | nil => rfl
  | cons p ps ih =>
    rw [List.cons_append, pushAll, pushAll, ih, partsText_cons, Text.byteLength_append,
      Nat.add_assoc]

/-- The declaration, or what is none, that a segment is. -/
def Segment.declaration (s : Segment) : Declaration :=
  (Declaration.startingAt s.place).pushAll s.place s.parts

namespace Walk

/-- At the beginning of a segment. -/
structure AtStart (w : Walk) (depth place : Nat) : Prop where
  passed : w.passed = none
  depth_eq : w.depth = depth
  place_eq : w.place = place
  current : w.current = .startingAt place

theorem atStart_initial : initial.AtStart 0 0 := ⟨rfl, rfl, rfl, rfl⟩

variable {w : Walk} {t : Token} {p : Piece} {ps : List Piece}

/-! ### Segments -/

theorem foldl_step_of_areParts (hw : w.passed = none) (h : AreParts ps) :
    (tokensOf ps).foldl step w = { w with
      place := w.place + Text.byteLength (partsText ps)
      current := w.current.pushAll w.place ps } := by
  induction ps generalizing w with
  | nil => rfl
  | cons p ps ih =>
    obtain ⟨hpart, hwhole⟩ := h p List.mem_cons_self
    rw [tokensOf_cons, List.foldl_append, foldl_step_of_isWhole hw hwhole hpart,
      ih (by exact hw) h.tail]
    simp [Declaration.pushAll, Nat.add_assoc]

theorem tour_of_areParts (hw : w.passed = none) (h : AreParts ps) (us : List Token) :
    w.tour (tokensOf ps ++ us) =
      { w with
        place := w.place + Text.byteLength (partsText ps)
        current := w.current.pushAll w.place ps : Walk }.tour us := by
  have hfold := foldl_step_of_areParts hw h
  rw [tour_append_of_quiet us (by rw [hfold]) (by rw [hfold]), hfold]

/-- After the pieces of a segment a walk stands at its end. -/
theorem AtStart.tour_parts {depth place : Nat} (h : w.AtStart depth place) (hps : AreParts ps)
    (us : List Token) :
    ∃ w' : Walk, w'.passed = none ∧ w'.depth = depth ∧
      w'.place = place + Text.byteLength (partsText ps) ∧
      w'.current = Segment.declaration ⟨place, ps⟩ ∧ w.tour (tokensOf ps ++ us) = w'.tour us := by
  refine ⟨_, ?_, ?_, ?_, ?_, tour_of_areParts h.passed hps us⟩
  · exact h.passed
  · exact h.depth_eq
  · exact congrArg (· + _) h.place_eq
  · rw [Segment.declaration, h.current, h.place_eq]

/-! ### Ends of segments -/

section Ends

variable {depth place : Nat}

theorem step_closing (hw : w.passed = none) (ht : t.kind = .closing .curly) :
    w.step t = { w.finish (w.place + Text.byteLength t.text) with
      place := w.place + Text.byteLength t.text
      depth := w.depth - 1 } := by
  rw [step_of_not_passed hw, look, ht]

/-- A segment that a semicolon ends. -/
theorem AtStart.tour_semicolon (h : w.AtStart depth place) (hps : AreParts ps)
    (ht : t.kind = .semicolon) (us : List Token) :
    ∃ w' : Walk, w'.AtStart depth
        (place + Text.byteLength (partsText ps) + Text.byteLength t.text) ∧
      w.tour (tokensOf ps ++ t :: us) =
        .declared (Segment.declaration ⟨place, ps⟩) :: w'.tour us := by
  obtain ⟨w₁, hpassed, rfl, hplace, hcurrent, htour⟩ := h.tour_parts hps (t :: us)
  have hstep : w₁.step t = { w₁.finish (w₁.place + Text.byteLength t.text) with
      place := w₁.place + Text.byteLength t.text } := by
    rw [step_of_not_passed hpassed, look, ht]
  refine ⟨w₁.step t, ?_, ?_⟩
  · rw [hstep, ← hplace]
    exact ⟨hpassed, rfl, rfl, rfl⟩
  · rw [htour, tour, hstep, events, ← hcurrent]
    simp [finish]

/-- A segment of the sheet that a stray closing bracket ends. -/
theorem AtStart.tour_stray (h : w.AtStart 0 place) (hps : AreParts ps)
    (ht : t.kind = .closing .curly) (us : List Token) :
    ∃ w' : Walk, w'.AtStart 0 (place + Text.byteLength (partsText ps) + Text.byteLength t.text) ∧
      w.tour (tokensOf ps ++ t :: us) =
        .declared (Segment.declaration ⟨place, ps⟩) :: w'.tour us := by
  obtain ⟨w₁, hpassed, hdepth, hplace, hcurrent, htour⟩ := h.tour_parts hps (t :: us)
  refine ⟨w₁.step t, ?_, ?_⟩
  · rw [step_closing hpassed ht, ← hplace]
    exact ⟨hpassed, by simp [hdepth], rfl, rfl⟩
  · rw [htour, tour, step_closing hpassed ht, events, ← hcurrent]
    simp [finish, hdepth]

/-- The last segment of a block, with the bracket that closes the block. -/
theorem AtStart.tour_leave (h : w.AtStart (depth + 1) place) (hps : AreParts ps)
    (ht : t.kind = .closing .curly) (us : List Token) :
    ∃ w' : Walk, w'.AtStart depth
        (place + Text.byteLength (partsText ps) + Text.byteLength t.text) ∧
      w.tour (tokensOf ps ++ t :: us) =
        .declared (Segment.declaration ⟨place, ps⟩) :: .left :: w'.tour us := by
  obtain ⟨w₁, hpassed, hdepth, hplace, hcurrent, htour⟩ := h.tour_parts hps (t :: us)
  refine ⟨w₁.step t, ?_, ?_⟩
  · rw [step_closing hpassed ht, ← hplace]
    exact ⟨hpassed, by simp [hdepth], rfl, rfl⟩
  · rw [htour, tour, step_closing hpassed ht, events, ← hcurrent]
    simp [finish, hdepth, show ¬depth + 1 < depth by omega]

/-- The pieces in front of a block that is looked into, with its opening bracket. -/
theorem AtStart.tour_enter (h : w.AtStart depth place) (hps : AreParts ps)
    (hdepth : depth < maxDepth) (ht : t.kind = .opening .curly) (us : List Token) :
    ∃ w' : Walk, w'.AtStart (depth + 1)
        (place + Text.byteLength (partsText ps) + Text.byteLength t.text) ∧
      w.tour (tokensOf ps ++ t :: us) = .entered :: w'.tour us := by
  obtain ⟨w₁, hpassed, rfl, hplace, -, htour⟩ := h.tour_parts hps (t :: us)
  have hstep : w₁.step t = { w₁.abandon (w₁.place + Text.byteLength t.text) with
      place := w₁.place + Text.byteLength t.text
      depth := w₁.depth + 1 } := by
    rw [step_of_not_passed hpassed, look, ht]
    dsimp only
    rw [if_pos hdepth]
  refine ⟨w₁.step t, ?_, ?_⟩
  · rw [hstep, ← hplace]
    exact ⟨hpassed, rfl, rfl, rfl⟩
  · rw [htour, tour, hstep, events]
    simp [abandon]

/-- The pieces in front of a block that is not looked into, with the block. -/
theorem AtStart.tour_deep (h : w.AtStart depth place) (hps : AreParts ps)
    (hdepth : ¬depth < maxDepth) (hcurly : p.head.kind = .opening .curly) (hwhole : p.IsWhole)
    (us : List Token) :
    ∃ w' : Walk, w'.AtStart depth
        (place + Text.byteLength (partsText ps) + Text.byteLength p.text) ∧
      w.tour (tokensOf ps ++ (p.tokens ++ us)) = w'.tour us := by
  obtain ⟨w₁, hpassed, rfl, hplace, -, htour⟩ := h.tour_parts hps (p.tokens ++ us)
  have hfold := foldl_step_of_deep hpassed hwhole hcurly hdepth
  refine ⟨p.tokens.foldl step w₁, ?_, ?_⟩
  · rw [hfold, ← hplace]
    exact ⟨hpassed, rfl, rfl, rfl⟩
  · rw [htour]
    exact tour_append_of_quiet us (by rw [hfold]) (by rw [hfold])

end Ends

/-! ### The end of the sheet -/

theorem tour_nil (hw : w.passed = none) : w.tour [] = [.declared w.current] := by
  rw [tour, declarations, hw]
  simp [finish]

/-- A block that is cut off is a part of the last declaration. -/
theorem tour_cut (hw : w.passed = none) (hpart : p.IsPart) (hcut : p.IsCut) :
    w.tour p.tokens = [.declared (w.current.push p.head
      ⟨w.place, w.place + Text.byteLength p.text⟩)] := by
  obtain ⟨brackets, hfold⟩ := foldl_step_of_isCut hw hcut
    fun span b hb => look_of_opened hb hpart.opening span
  have hquiet := tour_append_of_quiet [] (by rw [hfold]) (by rw [hfold])
  rw [List.append_nil] at hquiet
  rw [hquiet, hfold, tour, declarations]
  dsimp only
  rw [endPassed, if_neg hpart.opening]
  simp [push, finish]

/-- A block that is cut off, and too deep to be looked into: nothing comes after it. -/
theorem tour_deepCut (hw : w.passed = none) (hdepth : ¬w.depth < maxDepth)
    (hcurly : p.head.kind = .opening .curly) (hcut : p.IsCut) :
    w.tour p.tokens = [.declared (.startingAt (w.place + Text.byteLength p.text))] := by
  obtain ⟨brackets, hfold⟩ := foldl_step_of_isCut hw hcut fun span b hb => by
    obtain rfl : b = .curly := by
      rw [hcurly] at hb
      exact (Option.some.inj hb).symm
    exact look_of_deep hcurly hdepth span
  have hquiet := tour_append_of_quiet [] (by rw [hfold]) (by rw [hfold])
  rw [List.append_nil] at hquiet
  rw [hquiet, hfold, tour, declarations]
  dsimp only
  rw [endPassed, if_pos hcurly]
  simp [abandon, finish]

end Walk

/-! ### Levels -/

namespace Level

/-- What a walk meets in a level. -/
def tourFrom (place : Nat) (l : Level) : List (Event Declaration) :=
  (l.eventsFrom place).map (Event.map Segment.declaration)

variable {l : Level} {w : Walk} {place : Nat}

/-- A walk over a closed level with the token that closes it. -/
theorem IsSplit.tour_closed {d : Nat} {closed : Bool} (h : l.IsSplit d closed)
    (hclosed : closed = true) {depth : Nat} (hd : d = depth + 1) (hw : w.AtStart d place)
    {c : Token} (hc : c.kind = .closing .curly) (us : List Token) :
    ∃ w' : Walk, w'.AtStart depth (place + l.length + Text.byteLength c.text) ∧
      w.tour (l.tokens ++ c :: us) = l.tourFrom place ++ .left :: w'.tour us := by
  induction h generalizing depth w place c us with
  | last h =>
    subst hd
    exact hw.tour_leave h hc us
  | cut h hpart hcut => cases hclosed
  | @semicolon _ _ parts mark rest h hmark hrest ih =>
    obtain ⟨w₁, hstart, htour⟩ := hw.tour_semicolon h hmark (rest.tokens ++ c :: us)
    obtain ⟨w₂, hstart₂, htour₂⟩ := ih hclosed hd hstart hc us
    refine ⟨w₂, ?_, ?_⟩
    · simpa [length, render, Nat.add_assoc] using hstart₂
    · rw [tokens, List.append_assoc, List.cons_append, htour, htour₂]
      rfl
  | stray h hmark hrest ih => cases hd
  | @block _ _ front opener closer inside rest h hopener hlt _ hcloser _ ihinside ihrest =>
    obtain ⟨w₁, hstart, htour⟩ :=
      hw.tour_enter h hlt hopener (inside.tokens ++ closer :: (rest.tokens ++ c :: us))
    obtain ⟨w₂, hstart₂, htour₂⟩ := ihinside rfl rfl hstart hcloser (rest.tokens ++ c :: us)
    obtain ⟨w₃, hstart₃, htour₃⟩ := ihrest hclosed hd hstart₂ hc us
    refine ⟨w₃, ?_, ?_⟩
    · simpa [length, render, Nat.add_assoc] using hstart₃
    · have htokens : (Level.block front opener inside closer rest).tokens ++ c :: us =
          tokensOf front ++ opener :: (inside.tokens ++ closer :: (rest.tokens ++ c :: us)) := by
        simp [tokens]
      rw [htokens, htour, htour₂, htour₃]
      simp [tourFrom, eventsFrom, Event.map]
  | openBlock h hopener hlt hinside ih => cases hclosed
  | @deepBlock _ _ front piece rest h hcurly hlt hwhole hrest ih =>
    obtain ⟨w₁, hstart, htour⟩ := hw.tour_deep h hlt hcurly hwhole (rest.tokens ++ c :: us)
    obtain ⟨w₂, hstart₂, htour₂⟩ := ih hclosed hd hstart hc us
    refine ⟨w₂, ?_, ?_⟩
    · simpa [length, render, Nat.add_assoc] using hstart₂
    · have htokens : (Level.deepBlock front piece rest).tokens ++ c :: us =
          tokensOf front ++ (piece.tokens ++ (rest.tokens ++ c :: us)) := by
        simp [tokens]
      rw [htokens, htour, htour₂]
      rfl
  | deepCut h hcurly hlt hcut => cases hclosed

/-- A walk over a level that goes on to the end of the sheet. -/
theorem IsSplit.tour_open {depth : Nat} {closed : Bool} (h : l.IsSplit depth closed)
    (hw : w.AtStart depth place) : w.tour l.tokens = l.tourFrom place := by
  induction h generalizing w place with
  | @last _ _ parts h =>
    obtain ⟨w₁, hpassed, -, -, hcurrent, htour⟩ := hw.tour_parts h []
    rw [List.append_nil] at htour
    rw [tokens, htour, Walk.tour_nil hpassed, hcurrent]
    rfl
  | @cut _ parts piece h hpart hcut =>
    obtain ⟨w₁, hpassed, -, hplace, hcurrent, htour⟩ := hw.tour_parts h piece.tokens
    have htokens : (Level.last (parts ++ [piece])).tokens = tokensOf parts ++ piece.tokens := by
      simp [tokens]
    rw [htokens, htour, Walk.tour_cut hpassed hpart hcut, hcurrent, hplace]
    simp [tourFrom, eventsFrom, Event.map, Segment.declaration, Declaration.pushAll_append,
      Declaration.pushAll]
  | @semicolon _ _ parts mark rest h hmark hrest ih =>
    obtain ⟨w₁, hstart, htour⟩ := hw.tour_semicolon h hmark rest.tokens
    rw [tokens, htour, ih hstart]
    rfl
  | @stray _ parts mark rest h hmark hrest ih =>
    obtain ⟨w₁, hstart, htour⟩ := hw.tour_stray h hmark rest.tokens
    rw [tokens, htour, ih hstart]
    rfl
  | @block _ _ front opener closer inside rest h hopener hlt hinside hcloser hrest _ ihrest =>
    obtain ⟨w₁, hstart, htour⟩ :=
      hw.tour_enter h hlt hopener (inside.tokens ++ closer :: rest.tokens)
    obtain ⟨w₂, hstart₂, htour₂⟩ := hinside.tour_closed rfl rfl hstart hcloser rest.tokens
    rw [tokens, htour, htour₂, ihrest hstart₂]
    simp [tourFrom, eventsFrom, Event.map]
  | @openBlock _ front opener inside h hopener hlt hinside ih =>
    obtain ⟨w₁, hstart, htour⟩ := hw.tour_enter h hlt hopener inside.tokens
    rw [tokens, htour, ih hstart]
    rfl
  | @deepBlock _ _ front piece rest h hcurly hlt hwhole hrest ih =>
    obtain ⟨w₁, hstart, htour⟩ := hw.tour_deep h hlt hcurly hwhole rest.tokens
    rw [tokens, htour, ih hstart]
    rfl
  | @deepCut _ front piece h hcurly hlt hcut =>
    obtain ⟨w₁, hpassed, hdepth, hplace, -, htour⟩ := hw.tour_parts h piece.tokens
    have htokens : (Level.deepBlock front piece (.last [])).tokens =
        tokensOf front ++ piece.tokens := by
      simp [tokens]
    rw [htokens, htour, Walk.tour_deepCut hpassed (hdepth ▸ hlt) hcurly hcut, hplace]
    rfl

end Level

/-! ### Sheets -/

variable {css : List Char} {l : Level}

/-- **A walk over a sheet meets the events of its level.** -/
theorem Splits.tour_eq (h : Splits css l) : tour css = l.tourFrom 0 := by
  rw [tour, h.tokens_eq]
  exact h.isSplit.tour_open Walk.atStart_initial

/-- The declarations of a sheet are its segments. -/
theorem Splits.declarations_eq (h : Splits css l) :
    declarations css = (l.placedFrom 0).map Segment.declaration := by
  rw [← filterMap_declared?_tour, h.tour_eq, Level.tourFrom, Level.placedFrom, List.filterMap_map,
    List.map_filterMap]
  refine congrArg (List.filterMap · _) (funext fun event => ?_)
  cases event <;> rfl

end Stylesheet

end CssTransform
