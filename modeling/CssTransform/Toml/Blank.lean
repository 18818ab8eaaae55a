/-!
# What stands between the parts of a TOML document

Spaces, comments and line ends. A comment may hold any character but controls, the tab excepted.

## Main definitions

* `Toml.Reader` — what a reader of part of a document gives
* `Toml.lineEnd?` — the end of a line, after spaces and a comment
* `Toml.skipBlankLines` — spaces, line ends and whole comments
-/

namespace CssTransform

namespace Toml

/-- Reads something at the front of a text and gives it with what follows, or fails. -/
abbrev Reader (α : Type) := List Char → Option (α × List Char)

/-- A space or a tab. -/
def isSpace (c : Char) : Bool := c == ' ' || c == '\t'

/-- A text without the spaces in front. -/
def skipSpaces (text : List Char) : List Char := text.dropWhile isSpace

/-- A character that a comment may hold, and a literal string too. -/
def isTextChar (c : Char) : Bool := c == '\t' || 0x20 ≤ c.toNat && c != '\x7f'

/-- What follows a line end at the front of a text. -/
def newline? : List Char → Option (List Char)
  | '\n' :: rest => some rest
  | '\r' :: '\n' :: rest => some rest
  | _ => none

/-- A text without the comment in front. -/
def skipComment : List Char → List Char
  | '#' :: rest => rest.dropWhile isTextChar
  | text => text

/-- What follows the end of a line, which the end of the document is as well. Spaces and a comment
may come before it. -/
def lineEnd? (text : List Char) : Option (List Char) :=
  match skipComment (skipSpaces text) with
  | [] => some []
  | rest => newline? rest

/-- A text without the spaces, line ends and comments in front, given whether a comment has begun.
Here a comment must be followed by the end of its line. -/
def skipBlankLinesFrom : Bool → List Char → Option (List Char)
  | inComment, [] => if inComment then none else some []
  | _, '\n' :: rest => skipBlankLinesFrom false rest
  | _, '\r' :: '\n' :: rest => skipBlankLinesFrom false rest
  | true, c :: rest => if isTextChar c then skipBlankLinesFrom true rest else none
  | false, c :: rest =>
    if isSpace c then skipBlankLinesFrom false rest
    else if c = '#' then skipBlankLinesFrom true rest
    else if c = '\r' then none
    else some (c :: rest)

/-- A text without the spaces, line ends and comments in front. -/
def skipBlankLines (text : List Char) : Option (List Char) := skipBlankLinesFrom false text

/-- Reads one character. -/
def expect (c : Char) : List Char → Option (List Char)
  | d :: rest => if d = c then some rest else none
  | [] => none

end Toml

end CssTransform
