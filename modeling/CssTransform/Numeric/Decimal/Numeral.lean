import CssTransform.Numeric.Decimal

/-!
# Numerals

A numeral is a sign, digits with an optional point among them, and an optional exponent. What is
read is always the *longest* numeral at the front of a text, and the text may go on: a unit such as
`px` needs no notice.

The parts are cut off from left to right and none is ever given back. That finds the longest
numeral, because each optional part is present exactly when the characters after the previous part
say so: a point counts after at least one digit, or before one, and an exponent mark counts only
with a digit behind it and its sign.

## Main definitions

* `Numeral` — the parts of a numeral
* `Numeral.leading?` — the longest numeral at the front of a text
* `Numeral.toBinary64` — its value, correctly rounded

## Main results

* `Numeral.takeDigits_append` — cutting digits off loses nothing
-/

namespace CssTransform

/-- A numeral, taken apart. -/
structure Numeral where
  negative : Bool
  /-- The digits before the point. -/
  whole : List Char
  /-- The digits after the point. -/
  fraction : List Char
  exponent : Int
deriving DecidableEq

namespace Numeral

/-! ### Parts -/

/-- The digits at the front of a text, and what follows them. -/
def takeDigits (text : List Char) : List Char × List Char :=
  (text.takeWhile Char.isDigit, text.dropWhile Char.isDigit)

theorem takeDigits_append (text : List Char) :
    (takeDigits text).1 ++ (takeDigits text).2 = text := List.takeWhile_append_dropWhile

theorem isDigit_of_mem_takeDigits {text : List Char} {c : Char} (h : c ∈ (takeDigits text).1) :
    c.isDigit = true := List.all_eq_true.1 (List.all_takeWhile ..) c h

/-- The sign at the front of a text, `true` for minus, and what follows it. -/
def takeSign : List Char → Bool × List Char
  | '-' :: rest => (true, rest)
  | '+' :: rest => (false, rest)
  | rest => (false, rest)

/-- The digits before and after the point at the front of a text, at least one in all, and what
follows them. A point that ends the digits belongs to them. -/
def takeDecimals (text : List Char) : Option ((List Char × List Char) × List Char) :=
  match takeDigits text with
  | ([], '.' :: rest) =>
    match takeDigits rest with
    | ([], _) => none
    | (fraction, rest) => some (([], fraction), rest)
  | ([], _) => none
  | (whole, '.' :: rest) => some ((whole, (takeDigits rest).1), (takeDigits rest).2)
  | (whole, rest) => some ((whole, []), rest)

/-- The natural number that decimal digits stand for. -/
def valueOfDigits (digits : List Char) : Nat := Nat.ofDigitChars 10 digits 0

/-- The exponent at the front of a text, zero if there is none. -/
def leadingExponent : List Char → Int
  | mark :: rest =>
    if mark = 'e' ∨ mark = 'E' then
      let (negative, rest) := takeSign rest
      let size := valueOfDigits (takeDigits rest).1
      if negative then -(size : Int) else size
    else 0
  | [] => 0

/-! ### Reading -/

/-- The longest numeral at the front of a text. -/
def leading? (text : List Char) : Option Numeral :=
  let (negative, unsigned) := takeSign text
  (takeDecimals unsigned).map fun ((whole, fraction), rest) =>
    { negative, whole, fraction, exponent := leadingExponent rest }

/-- The magnitude of a numeral as a decimal. -/
def magnitude (n : Numeral) : Decimal where
  digits := valueOfDigits (n.whole ++ n.fraction)
  exponent := n.exponent - n.fraction.length

/-- The value of a numeral, correctly rounded. -/
def toBinary64 (n : Numeral) : Binary64 := n.magnitude.toBinary64 n.negative

end Numeral

end CssTransform
