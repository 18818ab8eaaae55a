import CssTransform.Toml.Blank

/-!
# Strings of TOML

There are four kinds of string: in double quotes with escapes or in single quotes without, each on
one line or, between quotes written three times, on many.

Each kind is given by what its next *piece* is, and one loop puts the pieces together. In a string
of many lines up to five quotes may stand at the end, the last three of them being the end.

## Main definitions

* `Toml.Piece` — a piece of a string
* `Toml.collect` — the pieces up to the end of a string
* `Toml.quoted?` — any string
* `Toml.quotedKey?` — a string on one line
-/

namespace CssTransform

namespace Toml

/-- What a string goes on with. -/
inductive Piece where
  /-- Characters of the string, and the text after them. -/
  | more (chars rest : List Char)
  /-- The last characters of the string, and the text after its end. -/
  | last (chars rest : List Char)
  | bad

/-- The string made of the pieces up to its end. Every piece but the last takes a character, so
that the length of the text is enough of a bound. -/
def collect (piece : List Char → Piece) : Nat → List Char → Reader (List Char)
  | 0, _, _ => none
  | bound + 1, found, text =>
    match piece text with
    | .more chars rest => collect piece bound (chars.reverse ++ found) rest
    | .last chars rest => some ((chars.reverse ++ found).reverse, rest)
    | .bad => none

/-- The string that begins here. -/
def string? (piece : List Char → Piece) : Reader (List Char) := fun text =>
  collect piece (text.length + 1) [] text

/-! ### Escapes -/

/-- The value of a hexadecimal digit. -/
def hexDigit? (c : Char) : Option Nat :=
  if c.isDigit then some (c.toNat - '0'.toNat)
  else if 'a' ≤ c ∧ c ≤ 'f' then some (c.toNat - 'a'.toNat + 10)
  else if 'A' ≤ c ∧ c ≤ 'F' then some (c.toNat - 'A'.toNat + 10)
  else none

/-- The character whose code point is written in so many hexadecimal digits. -/
def codePoint? (digits : Nat) : Reader Char := fun text => do
  let values ← (text.take digits).mapM hexDigit?
  let code := values.foldl (fun n d => 16 * n + d) 0
  if values.length = digits ∧ code.isValidChar then
    some (Char.ofNat code, text.drop digits)
  else none

/-- The character of an escape, after its backslash. -/
def escape? : Reader Char
  | 'b' :: rest => some ('\x08', rest)
  | 't' :: rest => some ('\t', rest)
  | 'n' :: rest => some ('\n', rest)
  | 'f' :: rest => some ('\x0c', rest)
  | 'r' :: rest => some ('\r', rest)
  | '"' :: rest => some ('"', rest)
  | '\\' :: rest => some ('\\', rest)
  | 'u' :: rest => codePoint? 4 rest
  | 'U' :: rest => codePoint? 8 rest
  | _ => none

/-- The piece that an escape is, after its backslash. -/
def escapePiece (text : List Char) : Piece :=
  match escape? text with
  | some (c, rest) => .more [c] rest
  | none => .bad

/-! ### The four kinds -/

/-- The piece that any other character is. -/
def plainPiece (c : Char) (rest : List Char) : Piece :=
  if isTextChar c then .more [c] rest else .bad

/-- A piece of a string with escapes on one line. -/
def basicPiece : List Char → Piece
  | '"' :: rest => .last [] rest
  | '\\' :: rest => escapePiece rest
  | c :: rest => plainPiece c rest
  | [] => .bad

/-- A piece of a string without escapes on one line. -/
def literalPiece : List Char → Piece
  | '\'' :: rest => .last [] rest
  | c :: rest => plainPiece c rest
  | [] => .bad

/-- The piece that a line end is, in a string of many lines. -/
def linePiece (text : List Char) : Piece :=
  match newline? text, text with
  | some rest, _ => .more ['\n'] rest
  | none, c :: rest => plainPiece c rest
  | none, [] => .bad

/-- The piece that quotes are, in a string of many lines. -/
def quotesPiece (quote : Char) (text : List Char) : Piece :=
  let quotes := ((text.take 5).takeWhile (· = quote)).length
  if quotes < 3 then .more (List.replicate quotes quote) (text.drop quotes)
  else .last (List.replicate (quotes - 3) quote) (text.drop quotes)

/-- Whether a text is only spaces up to the end of the line. -/
def endsLine (text : List Char) : Bool := (newline? (skipSpaces text)).isSome

/-- A text without the blank characters in front. -/
def skipBlanks : List Char → List Char
  | '\r' :: '\n' :: rest => skipBlanks rest
  | c :: rest => if isSpace c ∨ c = '\n' then skipBlanks rest else c :: rest
  | [] => []

/-- A piece of a string with escapes on many lines. A backslash at the end of a line takes away
the blanks up to the next text. -/
def multilineBasicPiece : List Char → Piece
  | '"' :: rest => quotesPiece '"' ('"' :: rest)
  | '\\' :: rest => if endsLine rest then .more [] (skipBlanks rest) else escapePiece rest
  | text => linePiece text

/-- A piece of a string without escapes on many lines. -/
def multilineLiteralPiece : List Char → Piece
  | '\'' :: rest => quotesPiece '\'' ('\'' :: rest)
  | text => linePiece text

/-- A text without the line end in front. -/
def skipNewline (text : List Char) : List Char := (newline? text).getD text

/-- A string on one line. -/
def quotedKey? : Reader (List Char)
  | '"' :: rest => string? basicPiece rest
  | '\'' :: rest => string? literalPiece rest
  | _ => none

/-- A string. -/
def quoted? : Reader (List Char)
  | '"' :: '"' :: '"' :: rest => string? multilineBasicPiece (skipNewline rest)
  | '\'' :: '\'' :: '\'' :: rest => string? multilineLiteralPiece (skipNewline rest)
  | text => quotedKey? text

end Toml

end CssTransform
