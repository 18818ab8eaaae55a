import CssTransform.Stylesheet.Name

/-!
# Tokens of a style sheet

A sheet is cut into tokens, each with its text, so that the texts of all tokens make up the sheet
again. No sheet is refused: what fits no other kind is a delimiter of one character, and a string,
comment or address that is not closed goes on to where it has to stop.

## Main definitions

* `Stylesheet.Token`, `Stylesheet.Token.Kind`
* `Stylesheet.Token.scan` — the kind of the first token of a text and its length
* `Stylesheet.tokens` — the tokens of a text

## Main results

* `Stylesheet.flatMap_text_tokens` — the tokens make up the text
-/

namespace CssTransform

namespace Stylesheet

/-- The three pairs of brackets. -/
inductive Bracket where
  | round
  | square
  | curly
deriving DecidableEq

/-- What a token is. Kinds that are never told apart are one kind. -/
inductive Token.Kind where
  | space
  | comment
  | ident (name : List Char)
  /-- A name with the bracket that opens its arguments. -/
  | function (name : List Char)
  | atKeyword
  | hash
  | string
  /-- An address without quotes, up to its closing bracket. -/
  | url
  /-- A number with its unit. -/
  | number
  /-- Two or more characters that belong together. -/
  | sign
  | colon
  | semicolon
  | opening (bracket : Bracket)
  | closing (bracket : Bracket)
  | delim (c : Char)
deriving DecidableEq

/-- A piece of a style sheet. -/
structure Token where
  kind : Token.Kind
  text : List Char
deriving DecidableEq

namespace Token

/-! ### Lengths -/

/-- The length of the rest of a comment. -/
def commentLength : List Char → Nat
  | [] => 0
  | '*' :: '/' :: _ => 2
  | _ :: rest => commentLength rest + 1

/-- The length of a line end, `\r\n` being one. -/
def lineEndLength : List Char → Nat
  | '\r' :: '\n' :: _ => 2
  | c :: _ => if isLineEnd c then 1 else 0
  | [] => 0

/-- The length of the rest of a string, after so many characters of an escape. An unescaped line
end is not part of the string. -/
def stringLength (quote : Char) : Nat → List Char → Nat
  | _, [] => 0
  | skipped + 1, _ :: rest => stringLength quote skipped rest + 1
  | 0, c :: rest =>
    if c = quote then 1
    else if isLineEnd c then 0
    else if c = '\\' then
      let skipped := if startsLineEnd rest then lineEndLength rest else escapeLength rest
      stringLength quote skipped rest + 1
    else stringLength quote 0 rest + 1

/-- A character that an address without quotes may not hold. -/
def isBarredFromUrl (c : Char) : Bool :=
  c == '"' || c == '\'' || c == '(' || c.toNat < 0x20 && c != '\x00' || c == '\x7f'

/-- The length of the rest of an address that holds what it may not. -/
def badUrlLength : List Char → Nat
  | [] => 0
  | ')' :: _ => 1
  | '\\' :: ')' :: rest => badUrlLength rest + 2
  | '\\' :: '\\' :: rest => badUrlLength rest + 2
  | _ :: rest => badUrlLength rest + 1

/-- The length of the rest of an address after a blank: only its bracket may follow. -/
def urlEndLength : List Char → Nat
  | [] => 0
  | ')' :: _ => 1
  | c :: rest => if isBlank c then urlEndLength rest + 1 else badUrlLength rest + 1

/-- The length of the rest of an address, after so many characters of an escape. -/
def urlLengthAfter : Nat → List Char → Nat
  | _, [] => 0
  | skipped + 1, _ :: rest => urlLengthAfter skipped rest + 1
  | 0, c :: rest =>
    if c = ')' then 1
    else if isBlank c then urlEndLength rest + 1
    else if isBarredFromUrl c then badUrlLength rest + 1
    else if c = '\\' then
      if startsEscape rest then urlLengthAfter (escapeLength rest) rest + 1
      else badUrlLength rest + 1
    else urlLengthAfter 0 rest + 1

/-- The length of an address after its opening bracket, blanks in front included. -/
def urlLength (text : List Char) : Nat :=
  let blanks := (text.takeWhile isBlank).length
  blanks + urlLengthAfter 0 (text.drop blanks)

/-- Whether the argument of `url` is in quotes, so that it is a function like others. -/
def startsQuoted (text : List Char) : Bool :=
  match text.dropWhile isBlank with
  | c :: _ => c == '"' || c == '\''
  | [] => false

/-- Whether a text begins with a digit. -/
def startsDigit : List Char → Bool
  | c :: _ => c.isDigit
  | [] => false

/-- Whether a text begins with a point and a digit. -/
def startsFraction : List Char → Bool
  | '.' :: rest => startsDigit rest
  | _ => false

/-- Whether a number begins here. -/
def startsNumber : List Char → Bool
  | [] => false
  | c :: rest =>
    if c = '+' ∨ c = '-' then startsDigit rest || startsFraction rest
    else startsDigit (c :: rest) || startsFraction (c :: rest)

/-- The length of the digits at the front of a text. -/
def digitsLength (text : List Char) : Nat := (text.takeWhile Char.isDigit).length

/-- The length of a sign at the front of a text. -/
def signLength : List Char → Nat
  | c :: _ => if c = '+' ∨ c = '-' then 1 else 0
  | [] => 0

/-- The length of a point with digits at the front of a text. -/
def fractionLength (text : List Char) : Nat :=
  if startsFraction text then digitsLength (text.drop 1) + 1 else 0

/-- The length of an exponent at the front of a text. It needs a digit. -/
def exponentLength : List Char → Nat
  | [] => 0
  | c :: rest =>
    let digits := digitsLength (rest.drop (signLength rest))
    if (c = 'e' ∨ c = 'E') ∧ digits ≠ 0 then 1 + signLength rest + digits else 0

/-- The length of a unit, or of a per cent sign, at the front of a text. -/
def unitLength (text : List Char) : Nat :=
  match text with
  | '%' :: _ => 1
  | _ => if startsName text then nameLength text else 0

/-- The length of the number at the front of a text, with its unit. -/
def numberLength (text : List Char) : Nat :=
  let whole := signLength text + digitsLength (text.drop (signLength text))
  let decimal := whole + fractionLength (text.drop whole)
  let scaled := decimal + exponentLength (text.drop decimal)
  scaled + unitLength (text.drop scaled)

/-! ### Scanning -/

/-- The name that makes a function an address. -/
def urlName : List Char := "url".toList

/-- The kind and length of a token that begins with a name. -/
def scanNamed (text : List Char) : Kind × Nat :=
  let name := nameText text
  let length := nameLength text
  match text.drop length with
  | '(' :: inside =>
    if name.map Char.toLower = urlName ∧ startsQuoted inside = false then
      (.url, length + 1 + urlLength inside)
    else (.function name, length + 1)
  | _ => (.ident name, length)

/-- The kind and length of a token of one or more fixed characters. -/
def scanFixed (c : Char) (rest : List Char) : Kind × Nat :=
  match c, rest with
  | '<', '!' :: '-' :: '-' :: _ => (.sign, 4)
  | '$', '=' :: _ => (.sign, 2)
  | '*', '=' :: _ => (.sign, 2)
  | '^', '=' :: _ => (.sign, 2)
  | '|', '=' :: _ => (.sign, 2)
  | '~', '=' :: _ => (.sign, 2)
  | ':', _ => (.colon, 1)
  | ';', _ => (.semicolon, 1)
  | '(', _ => (.opening .round, 1)
  | ')', _ => (.closing .round, 1)
  | '[', _ => (.opening .square, 1)
  | ']', _ => (.closing .square, 1)
  | '\x7b', _ => (.opening .curly, 1)
  | '\x7d', _ => (.closing .curly, 1)
  | c, _ => (.delim c, 1)

/-- Whether a text begins with the three characters that end a wrapping comment. -/
def startsWrapEnd : List Char → Bool
  | '-' :: '-' :: '>' :: _ => true
  | _ => false

/-- The kind of the first token of a text and its length. -/
def scan (c : Char) (rest : List Char) : Kind × Nat :=
  if isBlank c then (.space, (rest.takeWhile isBlank).length + 1)
  else if c = '"' ∨ c = '\'' then (.string, stringLength c 0 rest + 1)
  else if startsNumber (c :: rest) then (.number, numberLength (c :: rest))
  else if startsWrapEnd (c :: rest) then (.sign, 3)
  else if startsName (c :: rest) then scanNamed (c :: rest)
  else if c = '/' ∧ rest.head? = some '*' then (.comment, commentLength (rest.drop 1) + 2)
  else if c = '#' ∧ (startsName rest ∨ startsDigit rest ∨ rest.head? = some '-') then
    (.hash, nameLength rest + 1)
  else if c = '@' ∧ startsName rest then (.atKeyword, nameLength rest + 1)
  else scanFixed c rest

end Token

/-! ### The tokens of a text -/

/-- The tokens of a text, after those found before it, which are given last first. A token has at
least one character. -/
def tokensAfter (found : List Token) : List Char → List Token
  | [] => found.reverse
  | c :: rest =>
    let kind := (Token.scan c rest).1
    let further := (Token.scan c rest).2 - 1
    tokensAfter (⟨kind, c :: rest.take further⟩ :: found) (rest.drop further)
termination_by text => text.length
decreasing_by rw [List.length_drop, List.length_cons]; omega

/-- The tokens of a text. -/
def tokens (text : List Char) : List Token := tokensAfter [] text

theorem flatMap_text_tokensAfter (found : List Token) (text : List Char) :
    (tokensAfter found text).flatMap Token.text = found.reverse.flatMap Token.text ++ text := by
  fun_induction tokensAfter found text with
  | case1 found => simp
  | case2 found c rest kind further ih => simp [ih, List.flatMap_append]

theorem flatMap_text_tokens (text : List Char) : (tokens text).flatMap Token.text = text := by
  simp [tokens, flatMap_text_tokensAfter]

end Stylesheet

end CssTransform
