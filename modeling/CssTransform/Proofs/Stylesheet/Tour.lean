import CssTransform.Stylesheet.Walk

/-!
# What a walk meets

A walk keeps the declarations that have ended, and of the blocks around them only the number of
those that are open. Seen step by step it tells more: a step that makes the number greater enters a
block, and a step that makes it less leaves one. The tour of a walk is everything that it meets, in
order, and so tells in which block of the sheet every declaration stands.

## Which choice is load-bearing

What a step meets is read off the two walks before and after it. Nothing about tokens is told a
second time here.

## Main definitions

* `Event` — a block is entered or left, or something ends
* `Walk.events` — what lies between two walks
* `Walk.tour`, `tour` — what a walk meets, up to the end of the sheet

## Main results

* `filterMap_declared?_tour` — a tour meets exactly the declarations of the sheet
* `Walk.tour_append_of_quiet` — tokens that end nothing and leave the depth as it is meet nothing
-/

namespace CssTransform

namespace Stylesheet

/-- What a walk meets. -/
inductive Event (α : Type) where
  | entered
  | left
  | declared (a : α)
deriving DecidableEq

namespace Event

variable {α β : Type}

/-- A function applied to what ends. -/
def map (f : α → β) : Event α → Event β
  | entered => entered
  | left => left
  | declared a => declared (f a)

/-- A partial function applied to what ends, which drops it where the function has no value. -/
def collect? (f : α → Option β) : Event α → Option (Event β)
  | entered => some entered
  | left => some left
  | declared a => (f a).map declared

theorem collect?_comp_map (f : α → Option β) : collect? id ∘ map f = collect? f :=
  funext fun event => by cases event <;> rfl

/-- A function applied to what ends, where other things may end in its place. -/
def expand (f : α → List β) : Event α → List (Event β)
  | entered => [entered]
  | left => [left]
  | declared a => (f a).map declared

/-- What ends. -/
def declared? : Event α → Option α
  | entered => none
  | left => none
  | declared a => some a

end Event

namespace Walk

/-- What lies between two walks, one a step after the other. -/
def events (w next : Walk) : List (Event Declaration) :=
  (next.ended.take (next.ended.length - w.ended.length)).reverse.map .declared ++
    if w.depth < next.depth then [.entered] else if next.depth < w.depth then [.left] else []

/-- What a walk meets in tokens that go on to the end of the sheet. -/
def tour (w : Walk) : List Token → List (Event Declaration)
  | [] => (w.declarations.drop w.ended.length).map .declared
  | t :: ts => w.events (w.step t) ++ (w.step t).tour ts

/-! ### What one step does -/

theorem ended_endPassed (w : Walk) (block : PassedBlock) (place : Nat) :
    (w.endPassed block place).ended = w.ended ∧ (w.endPassed block place).depth = w.depth := by
  rw [endPassed]
  split <;> exact ⟨rfl, rfl⟩

theorem ended_passOver (w : Walk) (block : PassedBlock) (kind : Token.Kind) (stop : Nat) :
    (w.passOver block kind stop).ended = w.ended ∧
      (w.passOver block kind stop).depth = w.depth := by
  rw [passOver]
  split
  · exact ended_endPassed w block stop
  · exact ⟨rfl, rfl⟩

/-- A step ends the current declaration, and then it may leave a block, or ends nothing, and then it
may enter one. -/
theorem step_cases (w : Walk) (t : Token) :
    ((w.step t).ended = w.ended ∧ w.depth ≤ (w.step t).depth) ∨
      (w.step t).ended = w.current :: w.ended := by
  cases hw : w.passed with
  | some block =>
    have h := ended_passOver w block t.kind (w.place + Text.byteLength t.text)
    rw [step, hw]
    exact .inl ⟨h.1, Nat.le_of_eq h.2.symm⟩
  | none =>
    rw [step, hw]
    dsimp only
    rw [look]
    split
    · exact .inr rfl
    · exact .inr rfl
    · split
      · exact .inl ⟨rfl, Nat.le_succ _⟩
      · exact .inl ⟨rfl, Nat.le_refl _⟩
    · split <;> exact .inl ⟨rfl, Nat.le_refl _⟩

theorem length_ended_le (w : Walk) (ts : List Token) :
    w.ended.length ≤ (ts.foldl step w).ended.length ∧
      ((ts.foldl step w).ended.length = w.ended.length → w.depth ≤ (ts.foldl step w).depth) := by
  induction ts generalizing w with
  | nil => exact ⟨Nat.le_refl _, fun _ => Nat.le_refl _⟩
  | cons t ts ih =>
    obtain ⟨hlength, hdepth⟩ := ih (w.step t)
    rw [List.foldl_cons]
    rcases w.step_cases t with ⟨hended, hle⟩ | hended
    · rw [hended] at hlength hdepth
      exact ⟨hlength, fun h => Nat.le_trans hle (hdepth h)⟩
    · rw [hended, List.length_cons] at hlength
      exact ⟨by omega, fun h => by omega⟩

/-- Tokens that end no declaration and leave as many blocks as they enter: nothing is met. -/
theorem tour_append_of_quiet {w : Walk} {ts : List Token} (us : List Token)
    (hended : (ts.foldl step w).ended = w.ended) (hdepth : (ts.foldl step w).depth = w.depth) :
    w.tour (ts ++ us) = (ts.foldl step w).tour us := by
  induction ts generalizing w with
  | nil => rfl
  | cons t ts ih =>
    rw [List.foldl_cons] at hended hdepth ⊢
    obtain ⟨hlength, hmono⟩ := (w.step t).length_ended_le ts
    rw [hended, hdepth] at hmono
    rw [hended] at hlength
    rcases w.step_cases t with ⟨hstep, hle⟩ | hstep
    · have heq : (w.step t).depth = w.depth := Nat.le_antisymm (hmono (by rw [hstep])) hle
      have hevents : w.events (w.step t) = [] := by
        rw [events, hstep, heq]
        simp
      rw [List.cons_append, tour, hevents, List.nil_append]
      exact ih (hended.trans hstep.symm) (hdepth.trans heq.symm)
    · rw [hstep, List.length_cons] at hlength
      omega

/-! ### The declarations that are met -/

theorem exists_declarations_eq (w : Walk) (ts : List Token) :
    ∃ later, (ts.foldl step w).declarations = w.ended.reverse ++ later := by
  induction ts generalizing w with
  | nil =>
    rw [List.foldl_nil, declarations]
    cases hw : w.passed with
    | none => exact ⟨_, List.reverse_cons⟩
    | some block =>
      refine ⟨[(w.endPassed block w.place).current], ?_⟩
      dsimp only [finish]
      rw [List.reverse_cons, (ended_endPassed w block w.place).1]
  | cons t ts ih =>
    obtain ⟨later, h⟩ := ih (w.step t)
    rw [List.foldl_cons, h]
    rcases w.step_cases t with ⟨hstep, -⟩ | hstep
    · exact ⟨later, by rw [hstep]⟩
    · exact ⟨w.current :: later, by rw [hstep]; simp⟩

theorem filterMap_declared?_map (ds : List Declaration) :
    (ds.map Event.declared).filterMap Event.declared? = ds := by
  rw [List.filterMap_map]
  exact List.filterMap_some

theorem filterMap_declared?_events (w : Walk) (t : Token) :
    (w.events (w.step t)).filterMap Event.declared? =
      ((w.step t).ended.take ((w.step t).ended.length - w.ended.length)).reverse := by
  rw [events, List.filterMap_append, filterMap_declared?_map]
  split
  · simp [Event.declared?]
  · split <;> simp [Event.declared?]

theorem filterMap_declared?_tour (w : Walk) (ts : List Token) :
    (w.tour ts).filterMap Event.declared? =
      (ts.foldl step w).declarations.drop w.ended.length := by
  induction ts generalizing w with
  | nil => exact filterMap_declared?_map _
  | cons t ts ih =>
    obtain ⟨later, h⟩ := (w.step t).exists_declarations_eq ts
    rw [tour, List.filterMap_append, ih, filterMap_declared?_events, List.foldl_cons, h]
    rcases w.step_cases t with ⟨hstep, -⟩ | hstep
    · simp [hstep]
    · simp [hstep, List.drop_append]

end Walk

/-- What a walk over a sheet meets. -/
def tour (css : List Char) : List (Event Declaration) := Walk.initial.tour (tokens css)

/-- A tour meets exactly the declarations of the sheet. -/
theorem filterMap_declared?_tour (css : List Char) :
    (tour css).filterMap Event.declared? = declarations css :=
  Walk.filterMap_declared?_tour Walk.initial (tokens css)

end Stylesheet

end CssTransform
