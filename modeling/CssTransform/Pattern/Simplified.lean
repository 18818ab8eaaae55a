import CssTransform.Pattern

/-!
# Patterns in simplest form

Patterns are put together by the functions below. They match what the plain constructors match, and
have a simple form in place of a roundabout one: texts next to each other are one text, characters
to choose from are one set, and nothing is repeated just once.

## Which choice is load-bearing

How large an automaton a pattern needs is decided by this form, so it is fixed what is simplified
and what is not. Branches that begin alike share their beginning only if all of them are sequences.

## Main definitions

* `Pattern.ofSet`, `Pattern.times`, `Pattern.concat`, `Pattern.anyOf`
* `Pattern.matchesOnlyEmpty`, `Pattern.leastLength` — how short a match can be
-/

namespace CssTransform

namespace Pattern

/-! ### Properties of patterns -/

mutual

/-- Whether a pattern matches the empty text at most. -/
def matchesOnlyEmpty : Pattern → Bool
  | .empty => true
  | .literal _ => false
  | .oneOf _ => false
  | .condition _ => true
  | .captured pattern => pattern.matchesOnlyEmpty
  | .repeated pattern _ _ _ => pattern.matchesOnlyEmpty
  | .sequence parts => allMatchOnlyEmpty parts
  | .choice branches => allMatchOnlyEmpty branches

/-- Whether each of some patterns matches the empty text at most. -/
def allMatchOnlyEmpty : List Pattern → Bool
  | [] => true
  | pattern :: patterns => pattern.matchesOnlyEmpty && allMatchOnlyEmpty patterns

end

mutual

/-- A number of characters that every match has at least. There is none for a pattern with a set of
no characters in it. -/
def leastLength : Pattern → Option Nat
  | .empty => some 0
  | .literal text => some text.length
  | .oneOf set => if set.isEmpty then none else some 1
  | .condition _ => some 0
  | .captured pattern => pattern.leastLength
  | .repeated pattern least _ _ => pattern.leastLength.map (least * ·)
  | .sequence parts => leastLengths parts |>.map List.sum
  | .choice branches => leastLengths branches |>.bind List.min?

/-- The least lengths of some patterns, if each has one. -/
def leastLengths : List Pattern → Option (List Nat)
  | [] => some []
  | pattern :: patterns => do
    let length ← pattern.leastLength
    let lengths ← leastLengths patterns
    some (length :: lengths)

end

mutual

/-- Whether two patterns are one pattern written twice. Two matches that are kept are never the
same. -/
def same : Pattern → Pattern → Bool
  | .empty, .empty => true
  | .literal a, .literal b => a == b
  | .oneOf a, .oneOf b => a == b
  | .condition a, .condition b => a == b
  | .repeated p least greatest greedy, .repeated q least' greatest' greedy' =>
    least == least' && greatest == greatest' && greedy == greedy' && p.same q
  | .sequence ps, .sequence qs => allSame ps qs
  | .choice ps, .choice qs => allSame ps qs
  | _, _ => false

/-- Whether two lists hold the same patterns in the same order. -/
def allSame : List Pattern → List Pattern → Bool
  | [], [] => true
  | p :: ps, q :: qs => p.same q && allSame ps qs
  | _, _ => false

end

/-! ### Patterns put together -/

/-- One character of a set. A set of one character is a text. -/
def ofSet (set : CodeRanges) : Pattern :=
  match set with
  | [(first, last)] => if first = last then .literal [Char.ofNat first] else .oneOf set
  | _ => .oneOf set

/-- A pattern repeated. To match the empty text more than once is to match it once. -/
def times (pattern : Pattern) (least : Nat) (greatest : Option Nat) (greedy : Bool) : Pattern :=
  let once := pattern.matchesOnlyEmpty
  let least := if once then min least 1 else least
  let greatest := if once then some (min (greatest.getD 1) 1) else greatest
  if least = 0 ∧ greatest = some 0 then .empty
  else if least = 1 ∧ greatest = some 1 then pattern
  else .repeated pattern least greatest greedy

/-- The patterns that a pattern matches one after the other. -/
def parts : Pattern → List Pattern
  | .empty => []
  | .sequence parts => parts
  | pattern => [pattern]

/-- Texts next to each other made one. -/
def joinLiterals : List Pattern → List Pattern
  | .literal a :: rest =>
    match joinLiterals rest with
    | .literal b :: rest => .literal (a ++ b) :: rest
    | rest => .literal a :: rest
  | pattern :: rest => pattern :: joinLiterals rest
  | [] => []

/-- Patterns one after the other. -/
def concat (patterns : List Pattern) : Pattern :=
  match joinLiterals (patterns.flatMap parts) with
  | [] => .empty
  | [pattern] => pattern
  | patterns => .sequence patterns

/-- The patterns of which a pattern matches one. -/
def branches : Pattern → List Pattern
  | .choice branches => branches
  | pattern => [pattern]

/-- The set that a text of one character stands for. -/
def singleChar? : Pattern → Option CodeRanges
  | .literal [c] => some (.single c)
  | _ => none

/-- The set that a pattern takes one character of. -/
def set? : Pattern → Option CodeRanges
  | .oneOf set => some set
  | _ => none

/-- The parts of a sequence. -/
def sequence? : Pattern → Option (List Pattern)
  | .sequence parts => some parts
  | _ => none

/-- One of several patterns. Characters alone, and sets alone, make a set. -/
def oneOfBranches (patterns : List Pattern) : Pattern :=
  match patterns with
  | [pattern] => pattern
  | _ =>
    match patterns.mapM singleChar? <|> patterns.mapM set? with
    | some sets => ofSet (.ofList sets.flatten)
    | none => .choice patterns

/-- How many patterns two lists have in common at the front. -/
def commonLength : List Pattern → List Pattern → Nat
  | p :: ps, q :: qs => if p.same q then commonLength ps qs + 1 else 0
  | _, _ => 0

/-- How many parts some sequences have in common at the front, and their parts. -/
def sharedFront? (patterns : List Pattern) : Option (Nat × List (List Pattern)) :=
  match patterns.mapM sequence? with
  | some (first :: rest) =>
    some (rest.foldl (fun n parts => min n (commonLength first parts)) first.length, first :: rest)
  | _ => none

/-- One of several patterns, where sequences that begin alike share their beginning. -/
def anyOf (patterns : List Pattern) : Pattern :=
  let patterns := patterns.flatMap branches
  match patterns, sharedFront? patterns with
  | _ :: _ :: _, some (n + 1, first :: rest) =>
    let ends := (first :: rest).map fun parts => concat (parts.drop (n + 1))
    concat (first.take (n + 1) ++ [oneOfBranches (ends.flatMap branches)])
  | _, _ => oneOfBranches patterns

end Pattern

end CssTransform
