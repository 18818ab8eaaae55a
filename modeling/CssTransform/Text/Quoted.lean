import CssTransform.Text.Hidden

/-!
# Quoted text

How messages quote a text: between double quotes, with a backslash before what would end the
quotation or be mistaken for an escape, a letter for the usual controls, and the code point in
hexadecimal for every other character that does not show.

## Main definitions

* `Text.quoted` — a text in quotes
* `Text.escaped` — a character inside quotes
-/

namespace CssTransform

namespace Text

/-- A code point in braces, in hexadecimal without padding. -/
def codePoint (c : Char) : List Char :=
  "\\u\x7b".toList ++ Nat.toDigits 16 c.toNat ++ ['\x7d']

/-- A character as it stands inside quotes. -/
def escaped (c : Char) : List Char :=
  if c = '"' ∨ c = '\\' then ['\\', c]
  else if c = '\n' then ['\\', 'n']
  else if c = '\r' then ['\\', 'r']
  else if c = '\t' then ['\\', 't']
  else if c = '\x00' then ['\\', '0']
  else if isHidden c then codePoint c
  else [c]

/-- A text between quotes. -/
def quoted (text : List Char) : List Char := '"' :: text.flatMap escaped ++ ['"']

end Text

end CssTransform
