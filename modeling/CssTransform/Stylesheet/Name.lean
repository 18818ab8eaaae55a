/-!
# Names and escapes in style sheets

A name is a run of letters, digits, hyphens, underscores, characters beyond ASCII and escapes. An
escape is a backslash with up to six hexadecimal digits and one blank, or with any one character
that is neither a digit of that kind nor a line end.

Every scanner of this library gives the *number of characters* that it takes. What it takes is then
a prefix of the text by construction, and what it leaves is the rest.

## Which choice is load-bearing

The scanners that meet escapes carry the number of characters of an escape that are still to be
passed over. That keeps them recursive on the text alone, one character at a time.

## Main definitions

* `Stylesheet.escapeLength`, `Stylesheet.escapedChar` — an escape, after its backslash
* `Stylesheet.startsName` — whether a name begins here
* `Stylesheet.nameLength`, `Stylesheet.nameText` — a name, and what it spells
-/

namespace CssTransform

namespace Stylesheet

/-! ### Characters -/

/-- A character that ends a line. -/
def isLineEnd (c : Char) : Bool := c == '\n' || c == '\r' || c == '\x0c'

/-- White space. -/
def isBlank (c : Char) : Bool := c == ' ' || c == '\t' || isLineEnd c

/-- A hexadecimal digit. -/
def isHexDigit (c : Char) : Bool :=
  c.isDigit || ('a' ≤ c && c ≤ 'f') || ('A' ≤ c && c ≤ 'F')

/-- The value of a hexadecimal digit. -/
def hexDigitValue (c : Char) : Nat :=
  if c.isDigit then c.toNat - '0'.toNat else c.toLower.toNat - 'a'.toNat + 10

/-- May begin a name. -/
def isNameStart (c : Char) : Bool := c.isAlpha || c == '_' || c == '\x00' || 0x80 ≤ c.toNat

/-- May stand in a name. -/
def isNameChar (c : Char) : Bool := isNameStart c || c.isDigit || c == '-'

/-- What stands for a character that a text may not hold. -/
def replacement : Char := '\ufffd'

/-- A character of a name as it counts: the null character is replaced. -/
def cleaned (c : Char) : Char := if c = '\x00' then replacement else c

/-- Whether a text begins with the end of a line. -/
def startsLineEnd : List Char → Bool
  | c :: _ => isLineEnd c
  | [] => false

/-! ### Escapes -/

/-- The digits of an escape: at most six. -/
def escapeDigits (text : List Char) : List Char := (text.take 6).takeWhile isHexDigit

/-- The length of the blank that ends an escape with digits. -/
def escapeBlankLength : List Char → Nat
  | '\r' :: '\n' :: _ => 2
  | c :: _ => if isBlank c then 1 else 0
  | [] => 0

/-- The length of an escape, after its backslash. -/
def escapeLength (text : List Char) : Nat :=
  match text with
  | [] => 0
  | c :: _ =>
    if isHexDigit c then
      let digits := (escapeDigits text).length
      digits + escapeBlankLength (text.drop digits)
    else 1

/-- The character with a code point, if there is one and it is not null. -/
def charOfCodePoint (n : Nat) : Char :=
  if n ≠ 0 ∧ n.isValidChar then Char.ofNat n else replacement

/-- The character that an escape spells, after its backslash. -/
def escapedChar (text : List Char) : Char :=
  match text with
  | [] => replacement
  | c :: _ =>
    if isHexDigit c then
      charOfCodePoint ((escapeDigits text).foldl (fun n d => 16 * n + hexDigitValue d) 0)
    else cleaned c

/-- Whether an escape begins after a backslash: everywhere but at the end of a line. -/
def startsEscape (text : List Char) : Bool := !startsLineEnd text

/-! ### Names -/

/-- Whether a name begins here. After a hyphen it takes one more character to tell. -/
def startsName : List Char → Bool
  | '-' :: c :: _ => isNameStart c || c == '-' || c == '\\'
  | '\\' :: rest => startsEscape rest
  | c :: _ => isNameStart c
  | [] => false

/-- The length of a name, after so many characters of an escape. -/
def nameLengthAfter : Nat → List Char → Nat
  | _, [] => 0
  | skipped + 1, _ :: rest => nameLengthAfter skipped rest + 1
  | 0, c :: rest =>
    if isNameChar c then nameLengthAfter 0 rest + 1
    else if c = '\\' ∧ startsEscape rest then nameLengthAfter (escapeLength rest) rest + 1
    else 0

/-- The length of the name at the front of a text. -/
def nameLength (text : List Char) : Nat := nameLengthAfter 0 text

/-- What a name spells, after so many characters of an escape. -/
def nameTextAfter : Nat → List Char → List Char
  | _, [] => []
  | skipped + 1, _ :: rest => nameTextAfter skipped rest
  | 0, c :: rest =>
    if isNameChar c then cleaned c :: nameTextAfter 0 rest
    else if c = '\\' ∧ startsEscape rest then
      escapedChar rest :: nameTextAfter (escapeLength rest) rest
    else []

/-- What the name at the front of a text spells. -/
def nameText (text : List Char) : List Char := nameTextAfter 0 text

end Stylesheet

end CssTransform
