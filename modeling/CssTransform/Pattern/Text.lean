import CssTransform.Pattern.Automaton
import CssTransform.Pattern.Syntax

/-!
# The pattern that a text denotes

Not every well-formed text denotes a pattern. It must not be nested too deeply, and the automata of
its pattern must not be too large.

## Main definitions

* `Pattern.ofText?`
-/

namespace CssTransform

namespace Pattern

/-- How deeply a pattern may be nested. -/
def greatestDepth : Nat := 250

/-- The pattern that a text denotes. -/
def ofText? (text : List Char) : Option Pattern := do
  let expression ← Expression.ofText? text
  if expression.depth ≤ greatestDepth then
    let pattern := expression.pattern
    if pattern.fits then some pattern else none
  else none

end Pattern

end CssTransform
