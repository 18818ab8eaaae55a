import CssTransform.Text.CodeRanges

/-!
# White space

The characters with the Unicode property `White_Space`. It holds more than the characters that
core's `Char.isWhitespace` knows, and among them some, such as the no-break space, that other rules
of this library take for letters.

## Main definitions

* `Text.isBlank` — the property
-/

namespace CssTransform

namespace Text

/-- The code points with the property `White_Space`. -/
def blankRanges : CodeRanges := [
  (9, 13), (32, 32), (133, 133), (160, 160), (5760, 5760), (8192, 8202), (8232, 8233),
  (8239, 8239), (8287, 8287), (12288, 12288)]

/-- Whether a character is white space. -/
def isBlank (c : Char) : Bool := blankRanges.contains c

end Text

end CssTransform
