import CssTransform.Pattern.Automaton.Extent

/-!
# How much automaton a choice of texts takes

Texts to choose from are read together, byte by byte, as a tree: texts that begin alike share their
beginning.

## Which choice is load-bearing

An earlier text is preferred to a later one. Where a text ends inside the tree, those after it are
therefore kept apart from those before it, and share no byte with them.

## Main definitions

* `Extent.words`
-/

namespace CssTransform

/-- The bytes of a text. -/
abbrev ByteWord := List UInt8

namespace ByteWord

/-- Words without the ends of words that come at once at the front. To end twice is to end once. -/
def dropRepeatedEnds : List ByteWord → List ByteWord
  | [] :: rest => [] :: rest.dropWhile List.isEmpty
  | words => words

/-- The runs of words between those that end here. -/
def runs (words : List ByteWord) : List (List ByteWord) :=
  words.foldr (fun word runs =>
    match word, runs with
    | [], runs => [] :: runs
    | word, run :: runs => (word :: run) :: runs
    | word, [] => [[word]]) [[]]

/-- What follows each byte that some words begin with. -/
def byFirst (words : List ByteWord) : List (List ByteWord) :=
  (words.filterMap List.head?).eraseDups.map fun first =>
    (words.filter fun word => word.head? == some first).map List.tail

end ByteWord

namespace Extent

/-- The states to read one of some words, of which none is longer than a bound, to a common end that
is already laid out. -/
def wordTree : Nat → List ByteWord → Extent → Extent
  | 0, _, e => e
  | bound + 1, words, e =>
    let runs := ByteWord.runs (ByteWord.dropRepeatedEnds words)
    let e := runs.foldl (fun e run =>
      let following := ByteWord.byFirst run
      let e := following.foldl (fun e words =>
        if words.all List.isEmpty then e else wordTree bound words e) e
      match following with
      | [] => e
      | [_] => e.plain 1
      | _ => e.ranges following.length) e
    e.branches (runs.length - 1 + (runs.filter fun run => !run.isEmpty).length)

/-- The states to read one of some words. -/
def words (words : List ByteWord) (e : Extent) : Extent :=
  wordTree ((words.map List.length).foldl max 0) words (e.plain 1)

end Extent

end CssTransform
