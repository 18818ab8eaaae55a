import CssTransform.Conversion
import CssTransform.Settings
import CssTransform.Stylesheet.Walk

/-!
# Compilation of style sheets

The values of the `transform` declarations of a sheet are converted, and nothing else in the sheet
changes. Either the converted value replaces the written one, or the declaration stays and a second
one with the converted value is added right after its value.

## Which choice is load-bearing

Everything that changes is an *edit*: a span of the sheet and the text to put there. The edits come
in the order of the declarations, which do not overlap, so applying them copies the rest of the
sheet character for character.

The property is compared as it is written. A name with an escape is not recognised, even if it
spells `transform`.

## Main definitions

* `Stylesheet.transforms` — the `transform` declarations of a sheet
* `Stylesheet.edits` — the edits of a sheet
* `Stylesheet.compile` — the sheet after the edits, with counts
-/

namespace CssTransform

namespace Stylesheet

/-- The property whose values are converted. -/
def propertyName : List Char := "transform".toList

namespace Declaration

/-- The spans of a `transform` declaration. -/
def transform? (d : Declaration) : Option Value :=
  match d.phase with
  | .value value => if value.name.map Char.toLower = propertyName then some value else none
  | _ => none

/-- A second declaration with another value, put after the first: the space, the property with its
colon and the importance mark are those of the first. -/
def copyText (css : List Char) (d : Declaration) (value : Value) (span : Span)
    (converted : List Char) : List Char :=
  ';' :: Span.of css ⟨d.start, d.indentStop⟩ ++ Span.of css ⟨value.property.start, span.start⟩ ++
    converted ++ Span.of css ⟨span.stop, value.stop⟩

/-- The edit for a declaration with a value that has a conversion. -/
def edit? (convert : List Char → Option (List Char)) (keepWritten : Bool) (css : List Char)
    (d : Declaration) : Option Text.Edit := do
  let value ← d.transform?
  let span ← value.span
  let converted ← convert (span.of css)
  return if keepWritten then ⟨⟨value.stop, value.stop⟩, d.copyText css value span converted⟩
    else ⟨span, converted⟩

end Declaration

/-- The `transform` declarations of a sheet, in order. -/
def transforms (css : List Char) : List Declaration :=
  (declarations css).filter fun d => d.transform?.isSome

/-- The edits of a sheet, in order. -/
def edits (convert : List Char → Option (List Char)) (keepWritten : Bool) (css : List Char) :
    List Text.Edit :=
  (transforms css).filterMap (Declaration.edit? convert keepWritten css)

/-- A sheet after compilation. -/
@[ext]
structure Compiled where
  css : List Char
  /-- The number of `transform` declarations that were converted. -/
  converted : Nat
  /-- The number of `transform` declarations that were left as they are. -/
  unchanged : Nat
deriving DecidableEq

/-- Whether anything was converted. -/
def Compiled.isModified (c : Compiled) : Bool := 0 < c.converted

/-- Compiles a sheet with any conversion of values. -/
def compileWith (convert : List Char → Option (List Char)) (keepWritten : Bool)
    (css : List Char) : Compiled :=
  let edits := edits convert keepWritten css
  ⟨Text.applyEdits css edits, edits.length, (transforms css).length - edits.length⟩

/-- Compiles a sheet. -/
def compile (settings : Settings) (css : List Char) : Compiled :=
  if settings.enabled then compileWith (convert settings.onInvalid) settings.keepWritten css
  else ⟨css, 0, 0⟩

end Stylesheet

end CssTransform
