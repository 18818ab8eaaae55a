import CssTransform.Pattern.Automaton.Extent
import CssTransform.Text.Utf8

/-!
# How much automaton a set of characters takes

A set is read byte by byte. If it has ASCII characters alone, one state has a way on for each of its
ranges. Otherwise it takes several states, which are shared where the same bytes remain to be read.

## Which choice is load-bearing

Read forwards, sequences of byte ranges that begin alike begin with the same way on, and a state is
laid out when all that follows it has been. Read backwards, every sequence is laid out by itself,
from its end, and only shares what it has in common with an earlier one.

## Main definitions

* `Extent.forwardSet`, `Extent.backwardSet`
-/

namespace CssTransform

namespace Sharing

/-- The state from which some byte sequences, all begun alike, are read to their ends, where a state
is already laid out. -/
def forward (target : Nat) : Nat → List Text.ByteSequence → Sharing → Nat × Sharing
  | 0, _, s => (target, s)
  | bound + 1, sequences, s =>
    let (ways, s) := (sequences.splitBy fun a b => a.head? == b.head?).foldl
      (fun (ways, s) group =>
        match group with
        | [(low, high)] :: _ => (ways ++ [[low, high, target]], s)
        | ((low, high) :: _) :: _ =>
          let (next, s) := forward target bound (group.map List.tail) s
          (ways ++ [[low, high, next]], s)
        | _ => (ways, s)) ([], s)
    s.state ways.flatten ways.length

/-- The state from which a byte sequence is read from its end to its beginning, where a state is
already laid out. -/
def backward (target : Nat) (sequence : Text.ByteSequence) (s : Sharing) : Nat × Sharing :=
  sequence.foldl (fun (next, s) (low, high) => s.state [next, low, high] 0) (target, s)

end Sharing

namespace Extent

/-- Whether a set has ASCII characters alone. -/
def isAscii (set : CodeRanges) : Bool := set.all fun (_, last) => last < 0x80

/-- The bytes in the longest sequence for a character. -/
def longestSequence : Nat := 4

/-- The places for states of a set that is read forwards. -/
def forwardPlaces : Nat := 10000

/-- The places for states of a set that is read backwards. -/
def backwardPlaces : Nat := 1000

/-- The states to read a character of a set. -/
def forwardSet (set : CodeRanges) (e : Extent) : Extent :=
  if isAscii set then (e.plain 1).ranges set.length
  else
    let s := Sharing.start (e.plain 1) forwardPlaces
    (s.forward e.states longestSequence set.byteSequences).2.extent

/-- The states to read a character of a set backwards. -/
def backwardSet (set : CodeRanges) (e : Extent) : Extent :=
  if isAscii set then (e.plain 1).ranges set.length
  else
    let sequences := set.byteSequences
    let s := Sharing.start ((e.branches sequences.length).plain 1) backwardPlaces
    (sequences.foldl (fun s sequence => (s.backward (e.states + 1) sequence).2) s).extent

end Extent

end CssTransform
