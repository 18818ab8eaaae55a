import CssTransform.Pattern.Simplified

/-!
# Patterns as they are written

An expression keeps the structure of a pattern's text: its groups, its branches and the parts of a
branch. The flags in force have been worked into its parts.

## Which choice is load-bearing

How deeply an expression may be nested is a question of how it is written. Two expressions for one
pattern can differ in it, so it is asked here and not of patterns. Flags that stand alone count as a
part of their branch, though they match nothing.

## Main definitions

* `Expression`
* `Expression.depth` — how deeply it is nested
* `Expression.pattern` — the pattern that it denotes
-/

namespace CssTransform

/-- A pattern as it is written. -/
inductive Expression where
  /-- Nothing, or flags alone. -/
  | empty
  /-- One character of a set, which was written with so many nested brackets. -/
  | oneOf (set : CodeRanges) (depth : Nat)
  | condition (condition : Pattern.Condition)
  | group (captures : Bool) (content : Expression)
  | repeated (content : Expression) (least : Nat) (greatest : Option Nat) (greedy : Bool)
  | sequence (parts : List Expression)
  | choice (branches : List Expression)

namespace Expression

mutual

/-- How deeply an expression is nested. Each group, repetition, choice and sequence goes one deeper
than what is in it. -/
def depth : Expression → Nat
  | .empty => 0
  | .oneOf _ depth => depth
  | .condition _ => 0
  | .group _ content => content.depth + 1
  | .repeated content _ _ _ => content.depth + 1
  | .sequence parts => greatestDepth parts + 1
  | .choice branches => greatestDepth branches + 1

/-- The depth of the deepest of some expressions. -/
def greatestDepth : List Expression → Nat
  | [] => 0
  | e :: es => max e.depth (greatestDepth es)

end

mutual

/-- The pattern that an expression denotes. -/
def pattern : Expression → Pattern
  | .empty => .empty
  | .oneOf set _ => .ofSet set
  | .condition c => .condition c
  | .group captures content => if captures then .captured content.pattern else content.pattern
  | .repeated content least greatest greedy => content.pattern.times least greatest greedy
  | .sequence parts => .concat (patterns parts)
  | .choice branches => .anyOf (patterns branches)

/-- The patterns that some expressions denote. -/
def patterns : List Expression → List Pattern
  | [] => []
  | e :: es => e.pattern :: patterns es

end

/-- Expressions one after the other. A single one is no sequence. -/
def ofParts : List Expression → Expression
  | [] => .empty
  | [part] => part
  | parts => .sequence parts

/-- One of several expressions. A single one is no choice. -/
def ofBranches : List Expression → Expression
  | [branch] => branch
  | branches => .choice branches

end Expression

end CssTransform
