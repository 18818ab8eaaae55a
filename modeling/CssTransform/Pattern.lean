import CssTransform.Text.CodeRanges
import CssTransform.Text.Word

/-!
# Patterns and what they match

A pattern describes texts. What matters here is whether it matches somewhere in a text, so which of
several ways to match it would prefer is left out of the picture.

## Which choice is load-bearing

A pattern takes the *set of places* that a match may have reached to the set of places that it can
reach from there. Sets hold a place once, so a repetition cannot run longer than there are places:
it is iterated until the set stops growing, and a bound from the length of the text is no
restriction.

## Main definitions

* `Pattern`, `Pattern.Condition`
* `Place` — a place in a text, known by the character before it and the text after it
* `Pattern.advance` — from the places before a match to those after it
* `Pattern.isMatch` — whether a pattern matches somewhere in a text
-/

namespace CssTransform

/-- A condition on a place in a text. -/
inductive Pattern.Condition where
  | textStart
  | textEnd
  | lineStart
  | lineEnd
  | wordEdge
  | noWordEdge
  | wordStart
  | wordEnd
  | noWordBefore
  | noWordAfter
deriving DecidableEq

/-- A pattern. -/
inductive Pattern where
  | empty
  | literal (text : List Char)
  /-- One character of a set. -/
  | oneOf (set : CodeRanges)
  | condition (condition : Pattern.Condition)
  /-- A pattern whose match is kept. -/
  | captured (pattern : Pattern)
  /-- At least so many times, and at most so many if there is a greatest number; greedy if more
  times are preferred. -/
  | repeated (pattern : Pattern) (least : Nat) (greatest : Option Nat) (greedy : Bool)
  | sequence (parts : List Pattern)
  | choice (branches : List Pattern)

/-- A place in a text. -/
structure Place where
  previous : Option Char
  rest : List Char
deriving DecidableEq

namespace Place

/-- All places of a text from one on. -/
def allFrom (previous : Option Char) : List Char → List Place
  | [] => [⟨previous, []⟩]
  | c :: rest => ⟨previous, c :: rest⟩ :: allFrom (some c) rest

/-- All places of a text. -/
def all (text : List Char) : List Place := allFrom none text

/-- Whether a word character comes before. -/
def wordBefore (place : Place) : Bool := place.previous.any Text.isWordChar

/-- Whether a word character comes after. -/
def wordAfter (place : Place) : Bool := place.rest.head?.any Text.isWordChar

end Place

namespace Pattern

/-- Whether a condition holds at a place. -/
def Condition.holds : Condition → Place → Bool
  | textStart, place => place.previous.isNone
  | textEnd, place => place.rest.isEmpty
  | lineStart, place => place.previous.all (· == '\n')
  | lineEnd, place => place.rest.head?.all (· == '\n')
  | wordEdge, place => place.wordBefore != place.wordAfter
  | noWordEdge, place => place.wordBefore == place.wordAfter
  | wordStart, place => !place.wordBefore && place.wordAfter
  | wordEnd, place => place.wordBefore && !place.wordAfter
  | noWordBefore, place => !place.wordBefore
  | noWordAfter, place => !place.wordAfter

/-- The place after a character of a set, if one comes next. -/
def afterOneOf? (set : CodeRanges) (place : Place) : Option Place :=
  match place.rest with
  | c :: rest => if set.contains c then some ⟨some c, rest⟩ else none
  | [] => none

/-- The place after a text, if it comes next. -/
def afterLiteral? : List Char → Place → Option Place
  | [], place => some place
  | c :: text, place => do afterLiteral? text (← afterOneOf? (.single c) place)

/-- The places of two sets, those that follow the same text counting as one. -/
def join (a b : List Place) : List Place :=
  a ++ b.filter fun p => a.all fun q => q.rest.length != p.rest.length

/-- A function on sets of places applied a number of times. Once it changes nothing, it never
will. -/
def iterate (f : List Place → List Place) : Nat → List Place → List Place
  | 0, places => places
  | n + 1, places =>
    let next := f places
    if next = places then places else iterate f n next

/-- The places that can be reached by going on any number of times up to a bound. -/
def grow (f : List Place → List Place) : Nat → List Place → List Place
  | 0, places => places
  | n + 1, places =>
    let next := join places (f places)
    if next.length = places.length then places else grow f n next

mutual

/-- The places after a match that begins at one of the given places. -/
def advance : Pattern → List Place → List Place
  | .empty, places => places
  | .literal text, places => places.filterMap (afterLiteral? text)
  | .oneOf set, places => places.filterMap (afterOneOf? set)
  | .condition c, places => places.filter c.holds
  | .captured pattern, places => pattern.advance places
  | .repeated pattern least greatest _, places =>
    let start := iterate pattern.advance least places
    let further := match greatest with
      | some n => n - least
      | none => (places.map fun p => p.rest.length + 1).sum
    grow pattern.advance further start
  | .sequence parts, places => advanceAll parts places
  | .choice branches, places => advanceAny branches places

/-- The places after matches of patterns one after the other. -/
def advanceAll : List Pattern → List Place → List Place
  | [], places => places
  | part :: parts, places => advanceAll parts (part.advance places)

/-- The places after a match of one of several patterns. -/
def advanceAny : List Pattern → List Place → List Place
  | [], _ => []
  | branch :: branches, places => join (branch.advance places) (advanceAny branches places)

end

/-- Whether a pattern matches somewhere in a text. -/
def isMatch (pattern : Pattern) (text : List Char) : Bool :=
  !(pattern.advance (Place.all text)).isEmpty

end Pattern

end CssTransform
