import CssTransform.Numeric.Decimal.Numeral
import CssTransform.Toml.Blank

/-!
# Numbers, dates and times of TOML

Digits may be grouped with underscores, each between two digits. A decimal number has no leading
zero. A whole number must fit 64 bits with a sign, and a number with a fraction or an exponent must
not be so large that it rounds to infinity; there is a separate word for that.

Dates must exist in the calendar. A second may be the sixtieth, for leap seconds.

## Main definitions

* `Toml.integer?`, `Toml.float?` — numbers
* `Toml.moment?` — a date, a time, or both
-/

namespace CssTransform

namespace Toml

/-! ### Digits -/

/-- The digits at the front of a text with single underscores between them taken out. At least one
digit is needed. -/
def groupedDigits? (isDigit : Char → Bool) : Reader (List Char)
  | [] => none
  | c :: rest =>
    if isDigit c then
      match rest with
      | '_' :: next =>
        match groupedDigits? isDigit next with
        | some (digits, rest) => some (c :: digits, rest)
        | none => none
      | next =>
        match groupedDigits? isDigit next with
        | some (digits, rest) => some (c :: digits, rest)
        | none => some ([c], next)
    else none

/-- Exactly so many decimal digits. -/
def exactDigits? (count : Nat) : Reader Nat := fun text =>
  let digits := text.take count
  if digits.length = count ∧ digits.all Char.isDigit then
    some (Numeral.valueOfDigits digits, text.drop count)
  else none

/-- Two digits with a value from a range. -/
def twoDigits? (least greatest : Nat) : Reader Nat := fun text => do
  let (value, rest) ← exactDigits? 2 text
  if least ≤ value ∧ value ≤ greatest then some (value, rest) else none

/-! ### Numbers -/

/-- A decimal number without sign, fraction and exponent: no zero in front of other digits. -/
def wholeDigits? : Reader (List Char)
  | '0' :: rest => some (['0'], rest)
  | text => groupedDigits? Char.isDigit text

/-- A whole number in decimal with its sign. -/
def decimalInteger? : Reader Int := fun text => do
  let (negative, rest) := Numeral.takeSign text
  let (digits, rest) ← wholeDigits? rest
  let size := Numeral.valueOfDigits digits
  some (if negative then -(size : Int) else size, rest)

/-- The value of a digit in a base up to sixteen. -/
def digitValue (c : Char) : Nat :=
  if c.isDigit then c.toNat - '0'.toNat else c.toLower.toNat - 'a'.toNat + 10

/-- Whether a character is a digit in a base up to sixteen. -/
def isDigitIn (base : Nat) (c : Char) : Bool :=
  (c.isDigit || ('a' ≤ c.toLower && c.toLower ≤ 'f')) && digitValue c < base

/-- A whole number in another base, after the letters that tell which. -/
def integerIn? (base : Nat) : Reader Int := fun text => do
  let (digits, rest) ← groupedDigits? (isDigitIn base) text
  some ((digits.foldl (fun n c => base * n + digitValue c) 0 : Nat), rest)

/-- Whether a number fits 64 bits with a sign. -/
def fits (n : Int) : Bool := -9223372036854775808 ≤ n && n ≤ 9223372036854775807

/-- A whole number. -/
def integer? : Reader Int := fun text => do
  let (n, rest) ← match text with
    | '0' :: 'x' :: rest => integerIn? 16 rest
    | '0' :: 'o' :: rest => integerIn? 8 rest
    | '0' :: 'b' :: rest => integerIn? 2 rest
    | _ => decimalInteger? text
  if fits n then some (n, rest) else none

/-- A point and digits. -/
def fraction? : Reader (List Char)
  | '.' :: rest => groupedDigits? Char.isDigit rest
  | _ => none

/-- An exponent. -/
def exponent? : Reader Int
  | mark :: rest =>
    if mark = 'e' ∨ mark = 'E' then do
      let (negative, rest) := Numeral.takeSign rest
      let (digits, rest) ← groupedDigits? Char.isDigit rest
      let size := Numeral.valueOfDigits digits
      some (if negative then -(size : Int) else size, rest)
    else none
  | [] => none

/-- Infinity or not-a-number, after the sign. -/
def namedFloat? (negative : Bool) : Reader Binary64
  | 'i' :: 'n' :: 'f' :: rest => some (.infinite negative, rest)
  | 'n' :: 'a' :: 'n' :: rest => some (.nan, rest)
  | _ => none

/-- A number in decimal with a fraction, an exponent or both, after the sign. -/
def decimalFloat? (negative : Bool) : Reader Binary64 := fun text => do
  let (whole, rest) ← wholeDigits? text
  let (fraction, rest') ← match fraction? rest with
    | some (digits, rest) => some (digits, rest)
    | none => if (exponent? rest).isSome then some ([], rest) else none
  let (exponent, rest') := (exponent? rest').getD (0, rest')
  let value := ({ negative, whole, fraction, exponent } : Numeral).toBinary64
  if value = .infinite false then none else some (value, rest')

/-- A number that is not written as a whole number. -/
def float? : Reader Binary64 := fun text =>
  let (negative, rest) := Numeral.takeSign text
  match namedFloat? negative rest with
  | some found => some found
  | none => decimalFloat? negative rest

/-! ### Dates and times -/

/-- The number of days of a month. -/
def daysIn (year month : Nat) : Nat :=
  if month = 2 then
    if year % 4 = 0 ∧ (year % 100 ≠ 0 ∨ year % 400 = 0) then 29 else 28
  else if month = 4 ∨ month = 6 ∨ month = 9 ∨ month = 11 then 30
  else 31

/-- What follows a date. -/
def date? (text : List Char) : Option (List Char) := do
  let (year, rest) ← exactDigits? 4 text
  let (month, rest) ← twoDigits? 1 12 (← expect '-' rest)
  let (_, rest) ← twoDigits? 1 (daysIn year month) (← expect '-' rest)
  some rest

/-- What follows a fraction of a second, if there is one. -/
def skipSecondFraction : List Char → List Char
  | '.' :: c :: rest => if c.isDigit then rest.dropWhile Char.isDigit else '.' :: c :: rest
  | text => text

/-- What follows a time of day. -/
def time? (text : List Char) : Option (List Char) := do
  let (_, rest) ← twoDigits? 0 23 text
  let (_, rest) ← twoDigits? 0 59 (← expect ':' rest)
  let (_, rest) ← twoDigits? 0 60 (← expect ':' rest)
  some (skipSecondFraction rest)

/-- What follows the offset of a time from the universal time. -/
def offset? : List Char → Option (List Char)
  | c :: rest =>
    if c = 'Z' ∨ c = 'z' then some rest
    else if c = '+' ∨ c = '-' then do
      let (_, rest) ← twoDigits? 0 23 rest
      let (_, rest) ← twoDigits? 0 59 (← expect ':' rest)
      some rest
    else none
  | [] => none

/-- What follows a time of day after a date, with its offset; the text itself if there is none. -/
def skipTimeOfDate (text : List Char) : List Char :=
  match text with
  | mark :: rest =>
    if mark = 'T' ∨ mark = 't' ∨ mark = ' ' then
      match time? rest with
      | some rest => (offset? rest).getD rest
      | none => text
    else text
  | [] => []

/-- What follows a date, a time, or both. -/
def moment? (text : List Char) : Option (List Char) :=
  match date? text with
  | some rest => some (skipTimeOfDate rest)
  | none => time? text

end Toml

end CssTransform
