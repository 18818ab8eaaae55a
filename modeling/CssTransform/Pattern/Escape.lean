import CssTransform.Pattern
import CssTransform.Text.Blank

/-!
# Escapes in patterns

A backslash takes away the meaning of a punctuation character, and gives one to some letters. A
letter or digit without such a meaning may not be escaped.

## Main definitions

* `Pattern.Escape` — what an escape stands for
* `Pattern.escape?` — the escape at the front of a text, after its backslash
-/

namespace CssTransform

namespace Pattern

/-- What an escape stands for. -/
inductive Escape where
  | literal (c : Char)
  | set (set : CodeRanges)
  | condition (condition : Condition)

/-- The value of a hexadecimal digit. -/
def hexDigit? (c : Char) : Option Nat :=
  if c.isDigit then some (c.toNat - '0'.toNat)
  else if 'a' ≤ c ∧ c ≤ 'f' then some (c.toNat - 'a'.toNat + 10)
  else if 'A' ≤ c ∧ c ≤ 'F' then some (c.toNat - 'A'.toNat + 10)
  else none

/-- The character with a code point written in hexadecimal. -/
def charOfHex? (digits : List Char) : Option Char := do
  let values ← digits.mapM hexDigit?
  let code := values.foldl (fun n d => 16 * n + d) 0
  if values ≠ [] ∧ code.isValidChar then some (Char.ofNat code) else none

/-- A character by its code point: any number of digits in braces, or exactly so many. -/
def codePoint? (digits : Nat) : List Char → Option (Char × List Char)
  | '\x7b' :: rest =>
    match rest.dropWhile (· ≠ '\x7d') with
    | _ :: after => (charOfHex? (rest.takeWhile (· ≠ '\x7d'))).map (·, after)
    | [] => none
  | text =>
    if (text.take digits).length = digits then
      (charOfHex? (text.take digits)).map (·, text.drop digits)
    else none

/-- A character of the name of a condition. -/
def isConditionChar (c : Char) : Bool := c.isAlpha || c == '-'

/-- The condition on the edge of a word, with its name in braces if there is one. Braces that do
not begin like a name are not part of it. -/
def wordEdge? (text : List Char) : Option (Condition × List Char) :=
  match text with
  | '\x7b' :: c :: rest =>
    if isConditionChar c then
      match (c :: rest).dropWhile isConditionChar with
      | '\x7d' :: after =>
        match String.ofList ((c :: rest).takeWhile isConditionChar) with
        | "start" => some (.wordStart, after)
        | "end" => some (.wordEnd, after)
        | "start-half" => some (.noWordBefore, after)
        | "end-half" => some (.noWordAfter, after)
        | _ => none
      | _ => none
    else some (.wordEdge, text)
  | ['\x7b'] => none
  | _ => some (.wordEdge, text)

/-- A character that may be escaped without a meaning of its own. -/
def isPunctuation (c : Char) : Bool :=
  c.toNat < 0x80 && !c.isAlphanum && c != '<' && c != '>'

/-- The escape at the front of a text, after its backslash. -/
def escape? : List Char → Option (Escape × List Char)
  | [] => none
  | c :: rest =>
    match c with
    | 'd' => some (.set Text.decimalDigitRanges, rest)
    | 'D' => some (.set (CodeRanges.complement Text.decimalDigitRanges), rest)
    | 's' => some (.set Text.blankRanges, rest)
    | 'S' => some (.set (CodeRanges.complement Text.blankRanges), rest)
    | 'w' => some (.set Text.wordRanges, rest)
    | 'W' => some (.set (CodeRanges.complement Text.wordRanges), rest)
    | 'a' => some (.literal '\x07', rest)
    | 'f' => some (.literal '\x0c', rest)
    | 't' => some (.literal '\t', rest)
    | 'n' => some (.literal '\n', rest)
    | 'r' => some (.literal '\r', rest)
    | 'v' => some (.literal '\x0b', rest)
    | 'A' => some (.condition .textStart, rest)
    | 'z' => some (.condition .textEnd, rest)
    | 'B' => some (.condition .noWordEdge, rest)
    | '<' => some (.condition .wordStart, rest)
    | '>' => some (.condition .wordEnd, rest)
    | 'b' => (wordEdge? rest).map fun (edge, after) => (.condition edge, after)
    | 'x' => (codePoint? 2 rest).map fun (d, after) => (.literal d, after)
    | 'u' => (codePoint? 4 rest).map fun (d, after) => (.literal d, after)
    | 'U' => (codePoint? 8 rest).map fun (d, after) => (.literal d, after)
    | c => if isPunctuation c then some (.literal c, rest) else none

end Pattern

end CssTransform
