import CssTransform.Pattern.Automaton.Characters
import CssTransform.Pattern.Automaton.Words
import CssTransform.Pattern.Simplified

/-!
# How large the automaton of a pattern is

To search for a pattern takes two automata, one to find the end of a match and one to go back to its
beginning. A pattern is refused if either of them would be too large.

## Which choice is load-bearing

A repetition lays out its pattern anew for each of its numbered times, so sizes multiply. Extents
only grow, so laying out may end as soon as the limit is passed: the answer is the same, and a
repetition never costs more than the limit does.

## Main definitions

* `Pattern.layOut` — an extent with the states of a pattern
* `Pattern.extent` — the extent of the automaton that searches for a pattern
* `Pattern.fits` — whether both automata are within the limit
-/

namespace CssTransform

/-- Whether a text is read from its beginning or from its end. -/
inductive Direction where
  | forward
  | backward
deriving DecidableEq

namespace Extent

/-- The most bytes that an automaton may take. -/
def limit : Nat := 10485760

/-- Whether an extent is within the limit. -/
def fits (e : Extent) : Bool := e.bytes ≤ limit

/-- Something laid out a number of times, or until the limit is passed. -/
def copies (f : Extent → Extent) : Nat → Extent → Extent
  | 0, e => e
  | n + 1, e => if e.fits then copies f n (f e) else e

/-- Something laid out exactly so many times. No times at all still take a state. -/
def exactly (f : Extent → Extent) (n : Nat) (e : Extent) : Extent :=
  if n = 0 then e.plain 1 else copies f n e

/-- Something laid out for a repetition. If it may match the empty text, a repetition from no times
on is one from once on that may be passed by. -/
def repeated (f : Extent → Extent) (mayBeEmpty : Bool) (least : Nat) (greatest : Option Nat)
    (e : Extent) : Extent :=
  match least, greatest with
  | 0, some 1 => (f (e.branches 2)).plain 1
  | 0, none =>
    if mayBeEmpty then (((f e).branches 2).branches 2).plain 1 else f (e.branches 2)
  | least, none => (copies f least e).branches 2
  | least, some greatest =>
    if least = greatest then exactly f least e
    else copies (fun e => f (e.branches 2)) (greatest - least) ((exactly f least e).plain 1)

/-- The states to read a set. -/
def set (d : Direction) (set : CodeRanges) (e : Extent) : Extent :=
  match d with
  | .forward => e.forwardSet set
  | .backward => e.backwardSet set

end Extent

namespace Pattern

/-- The bytes of a text. -/
def bytes (text : List Char) : ByteWord := (String.ofList text).toUTF8.toList

/-- The bytes of a pattern that is a text. -/
def word? : Pattern → Option ByteWord
  | .literal text => some (bytes text)
  | _ => none

/-- Whether a pattern may match the empty text, for all that its least length says. -/
def mayBeEmpty (pattern : Pattern) : Bool :=
  match pattern.leastLength with
  | some n => n = 0
  | none => true

mutual

/-- An extent with the states of a pattern laid out. What is matched is kept by the search for the
end of a match alone. -/
def layOut (d : Direction) : Pattern → Extent → Extent
  | .empty, e => e.plain 1
  | .literal text, e => e.plain (bytes text).length
  | .oneOf set, e => e.set d set
  | .condition _, e => e.plain 1
  | .captured pattern, e =>
    match d with
    | .forward => (pattern.layOut d (e.plain 1)).plain 1
    | .backward => pattern.layOut d e
  | .repeated pattern least greatest _, e =>
    Extent.repeated (pattern.layOut d) pattern.mayBeEmpty least greatest e
  | .sequence parts, e =>
    match d with
    | .forward => layOutAll d parts e
    | .backward => layOutFromLast d parts e
  | .choice branches, e =>
    match branches.mapM word? with
    | some words => e.words (match d with
      | .forward => words
      | .backward => words.map List.reverse)
    | none => layOutBranches d branches.length 0 branches e

/-- An extent with the states of some patterns laid out in their order. -/
def layOutAll (d : Direction) : List Pattern → Extent → Extent
  | [], e => e
  | pattern :: patterns, e => layOutAll d patterns (pattern.layOut d e)

/-- An extent with the states of some patterns laid out in the opposite order. -/
def layOutFromLast (d : Direction) : List Pattern → Extent → Extent
  | [], e => e
  | pattern :: patterns, e => pattern.layOut d (layOutFromLast d patterns e)

/-- An extent with the states of some branches laid out, given how many there are in all and how
many come before them. What binds all of them together is laid out after the second one. -/
def layOutBranches (d : Direction) (count : Nat) : Nat → List Pattern → Extent → Extent
  | _, [], e => e
  | before, branch :: branches, e =>
    let e := branch.layOut d e
    let e := if before = 1 then (e.branches count).plain 1 else e
    layOutBranches d count (before + 1) branches e

end

mutual

/-- Whether every match of a pattern begins at the start of the text, as far as its form shows. -/
def startsText : Pattern → Bool
  | .condition c => c = .textStart
  | .captured pattern => pattern.startsText
  | .repeated pattern least _ _ => 0 < least && pattern.startsText
  | .sequence parts => sequenceStartsText parts
  | .choice branches => branchesStartText branches
  | _ => false

/-- Whether a sequence begins at the start of the text: one of its parts does, and nothing comes
before that part. -/
def sequenceStartsText : List Pattern → Bool
  | [] => false
  | part :: parts => part.startsText || (part.matchesOnlyEmpty && sequenceStartsText parts)

/-- Whether all of some branches begin at the start of the text. -/
def branchesStartText : List Pattern → Bool
  | [] => true
  | branch :: branches => branch.startsText && branchesStartText branches

end

mutual

/-- Whether every match of a pattern ends at the end of the text, as far as its form shows. -/
def endsText : Pattern → Bool
  | .condition c => c = .textEnd
  | .captured pattern => pattern.endsText
  | .repeated pattern least _ _ => 0 < least && pattern.endsText
  | .sequence parts => sequenceEndsText parts
  | .choice branches => branchesEndText branches
  | _ => false

/-- Whether a sequence ends at the end of the text: one of its parts does, and nothing comes after
that part. -/
def sequenceEndsText : List Pattern → Bool
  | [] => false
  | part :: parts => sequenceEndsText parts || (allMatchOnlyEmpty parts && part.endsText)

/-- Whether all of some branches end at the end of the text. -/
def branchesEndText : List Pattern → Bool
  | [] => true
  | branch :: branches => branch.endsText && branchesEndText branches

end

/-- An extent with the states to pass over any bytes before a match. A match that is bound to the
end of the text where the search begins has none before it. -/
def lead (d : Direction) (pattern : Pattern) (e : Extent) : Extent :=
  let bound := match d with
    | .forward => pattern.startsText
    | .backward => pattern.endsText
  if bound then e.plain 1 else ((e.branches 2).plain 1).ranges 1

/-- The extent of the automaton that searches for a pattern, of which the whole match is kept. -/
def extent (d : Direction) (pattern : Pattern) : Extent :=
  ((captured pattern).layOut d (pattern.lead d .zero)).plain 1

/-- Whether both automata of a pattern are within the limit. -/
def fits (pattern : Pattern) : Bool :=
  (pattern.extent .forward).fits && (pattern.extent .backward).fits

end Pattern

end CssTransform
