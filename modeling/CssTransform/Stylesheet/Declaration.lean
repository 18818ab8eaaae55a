import CssTransform.Stylesheet.Token
import CssTransform.Text.Span

/-!
# Declarations

A declaration is what stands between two ends of declarations, token by token: a name, a colon and
a value. Whether it is one shows as its tokens come in, so it is kept as a *phase*: nothing but
space and comments so far, a property, a value, or no declaration at all.

Of the value only spans are kept. It runs from its first token that is neither space nor comment to
its last, and an importance mark at its end, `!` and `important`, does not count as part of it. A
whole block in brackets counts as one token, the one that opens it.

## Which choice is load-bearing

A mark counts only as the last two tokens of the value, and that it was the last is known only
afterwards. So the end of the value before a mark is remembered in two steps, `bang` after the `!`
and `important` after the word, and any other token forgets both.

## Main definitions

* `Stylesheet.Declaration`, with its `Phase` and its `Value`
* `Stylesheet.Declaration.push` — one more token
* `Stylesheet.Declaration.Value.span` — the value without its mark
-/

namespace CssTransform

namespace Stylesheet

namespace Declaration

/-- A declaration with a value. -/
structure Value where
  /-- The property, as it is written. -/
  name : List Char
  property : Span
  /-- Where the first token of the value starts. -/
  start : Option Nat
  /-- The end of the last token that is neither space nor comment. -/
  stop : Nat
  /-- The end of the value before a `!` at its end. -/
  bang : Option Nat
  /-- The end of the value before a complete mark at its end. -/
  important : Option Nat
deriving DecidableEq

/-- How far a declaration has come. -/
inductive Phase where
  | lead
  | property (name : List Char) (span : Span)
  | value (value : Value)
  | invalid
deriving DecidableEq

/-- The word of an importance mark. -/
def importantName : List Char := "important".toList

/-- Whether a token carries no meaning for a declaration. -/
def isTrivia : Token.Kind → Bool
  | .space => true
  | .comment => true
  | _ => false

namespace Value

/-- The value right after the colon that ends at a place. -/
def empty (name : List Char) (property : Span) (colonStop : Nat) : Value where
  name := name
  property := property
  start := none
  stop := colonStop
  bang := none
  important := none

/-- One more token that is neither space nor comment. -/
def push (value : Value) (kind : Token.Kind) (span : Span) : Value :=
  let longer := { value with start := some (value.start.getD span.start), stop := span.stop }
  match kind with
  | .delim '!' => { longer with bang := some value.stop, important := none }
  | .ident name =>
    if name.map Char.toLower = importantName then
      { longer with bang := none, important := value.bang }
    else
      { longer with bang := none, important := none }
  | _ => { longer with bang := none, important := none }

/-- The value without its mark, unless nothing is left. -/
def span (value : Value) : Option Span :=
  match value.start with
  | none => none
  | some start =>
    let stop := value.important.getD value.stop
    if start < stop then some ⟨start, stop⟩ else none

end Value

end Declaration

/-- A declaration, or what may become one. -/
structure Declaration where
  start : Nat
  /-- The end of the space that it begins with. -/
  indentStop : Nat
  phase : Declaration.Phase
deriving DecidableEq

namespace Declaration

/-- The declaration that begins at a place. -/
def startingAt (place : Nat) : Declaration where
  start := place
  indentStop := place
  phase := .lead

/-- One more token, or block, with its span. -/
def push (d : Declaration) (token : Token) (span : Span) : Declaration :=
  match d.phase, token.kind with
  | .lead, .space => if span.start = d.start then { d with indentStop := span.stop } else d
  | .lead, .comment => d
  | .lead, .ident _ => { d with phase := .property token.text span }
  | .property name property, .colon => { d with phase := .value (.empty name property span.stop) }
  | .property _ _, kind => if isTrivia kind then d else { d with phase := .invalid }
  | .value value, kind =>
    if isTrivia kind then d else { d with phase := .value (value.push kind span) }
  | _, _ => { d with phase := .invalid }

end Declaration

end Stylesheet

end CssTransform
