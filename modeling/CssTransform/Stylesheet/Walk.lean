import CssTransform.Stylesheet.Declaration

/-!
# The declarations of a style sheet

A walk over the tokens of a sheet collects declarations: of the sheet itself and of every block in
curly brackets, to a limited depth. A declaration ends at a semicolon, at the bracket that closes
its block, and at the end of the sheet. What stands before a block is a prelude and no declaration.

## Which choice is load-bearing

Brackets are matched by one rule throughout: a block ends at its own closing bracket, and any other
closing bracket inside it is an ordinary token. Blocks in round and square brackets, and blocks too
deep to be looked into, are *passed over*; there the brackets opened since are kept, innermost
first. Blocks that are looked into need no such list, only their number: inside one of them
nothing but a curly bracket closes anything.

## Main definitions

* `Stylesheet.Walk` — where a walk stands
* `Stylesheet.Walk.step` — one token
* `Stylesheet.declarations` — everything that came between two ends, in order
-/

namespace CssTransform

namespace Stylesheet

/-- The deepest block that is looked into. -/
def maxDepth : Nat := 32

/-- The bracket that a token opens. -/
def Token.Kind.opened : Token.Kind → Option Bracket
  | .opening b => some b
  | .function _ => some .round
  | _ => none

/-- A block that is being passed over. -/
structure PassedBlock where
  /-- The token that opened it. -/
  opener : Token
  start : Nat
  /-- Its bracket and the brackets opened since, the innermost first. -/
  brackets : List Bracket
deriving DecidableEq

/-- Where a walk stands. -/
structure Walk where
  place : Nat
  /-- The number of open blocks that are looked into. -/
  depth : Nat
  current : Declaration
  passed : Option PassedBlock
  /-- The declarations that have ended, last first. -/
  ended : List Declaration
deriving DecidableEq

namespace Walk

/-- At the beginning of a sheet. -/
def initial : Walk where
  place := 0
  depth := 0
  current := .startingAt 0
  passed := none
  ended := []

/-- The brackets open after one more token of a block that is passed over. -/
def bracketsAfter (brackets : List Bracket) (kind : Token.Kind) : List Bracket :=
  match kind, brackets with
  | .closing b, top :: rest => if b = top then rest else top :: rest
  | kind, brackets => kind.opened.toList ++ brackets

/-- The current declaration ends, and another begins at a place. -/
def finish (w : Walk) (place : Nat) : Walk :=
  { w with current := .startingAt place, ended := w.current :: w.ended }

/-- The current declaration is given up, and another begins at a place. -/
def abandon (w : Walk) (place : Nat) : Walk := { w with current := .startingAt place }

/-- A token of the current declaration. -/
def push (w : Walk) (token : Token) (span : Span) : Walk :=
  { w with current := w.current.push token span }

/-- A block that was passed over ends at a place. In curly brackets it was the block of a prelude;
in others it is a part of the current declaration. -/
def endPassed (w : Walk) (block : PassedBlock) (place : Nat) : Walk :=
  if block.opener.kind = .opening .curly then { w.abandon place with passed := none }
  else { w.push block.opener ⟨block.start, place⟩ with passed := none }

/-- One token of a block that is passed over, up to a place. -/
def passOver (w : Walk) (block : PassedBlock) (kind : Token.Kind) (stop : Nat) : Walk :=
  match bracketsAfter block.brackets kind with
  | [] => w.endPassed block stop
  | brackets => { w with passed := some { block with brackets } }

/-- One token outside blocks that are passed over. -/
def look (w : Walk) (token : Token) (span : Span) : Walk :=
  match token.kind with
  | .semicolon => w.finish span.stop
  | .closing .curly => { w.finish span.stop with depth := w.depth - 1 }
  | .opening .curly =>
    if w.depth < maxDepth then { w.abandon span.stop with depth := w.depth + 1 }
    else { w with passed := some ⟨token, span.start, [.curly]⟩ }
  | kind =>
    match kind.opened with
    | some b => { w with passed := some ⟨token, span.start, [b]⟩ }
    | none => w.push token span

/-- One token. -/
def step (w : Walk) (token : Token) : Walk :=
  let stop := w.place + Text.byteLength token.text
  let next := match w.passed with
    | some block => w.passOver block token.kind stop
    | none => w.look token ⟨w.place, stop⟩
  { next with place := stop }

/-- At the end of the sheet every open block ends, and so does the current declaration. -/
def declarations (w : Walk) : List Declaration :=
  let closed := match w.passed with
    | some block => w.endPassed block w.place
    | none => w
  (closed.finish w.place).ended.reverse

end Walk

/-- What came between two ends of declarations, in order. -/
def declarations (css : List Char) : List Declaration :=
  ((tokens css).foldl Walk.step Walk.initial).declarations

end Stylesheet

end CssTransform
