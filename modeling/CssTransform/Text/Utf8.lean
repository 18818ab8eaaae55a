import CssTransform.Text.CodeRanges

/-!
# Ranges of code points as ranges of bytes

UTF-8 writes a code point as one to four bytes. A range of code points becomes a few sequences of
byte ranges: a sequence stands for all choices of one byte from each of its ranges.

## Which choice is load-bearing

After the first byte, a byte carries six bits. The code points with as many bytes are numbers with
as many digits to base 64, and a range of such numbers is cut where the digits behind the first one
do not run through all values. The sequences come in increasing order, and no two of them overlap.

## Main definitions

* `Text.ByteSequence`
* `Text.byteSequences`, `CodeRanges.byteSequences` — the sequences for a range and for a set
-/

namespace CssTransform

namespace Text

/-- Ranges of bytes, one after the other. -/
abbrev ByteSequence := List (Nat × Nat)

/-- A range of numbers, with so many digits to base 64 behind the first, as ranges of digits. -/
def digitSequences : Nat → Nat → Nat → List (List (Nat × Nat))
  | 0, first, last => [[(first, last)]]
  | digits + 1, first, last =>
    let weight := Nat.pow 64 (digits + 1)
    let low := first / weight
    let high := last / weight
    if low = high then
      (digitSequences digits (first % weight) (last % weight)).map ((low, low) :: ·)
    else
      let below :=
        if first % weight = 0 then []
        else (digitSequences digits (first % weight) (weight - 1)).map ((low, low) :: ·)
      let above :=
        if last % weight = weight - 1 then []
        else (digitSequences digits 0 (last % weight)).map ((high, high) :: ·)
      let low := if below.isEmpty then low else low + 1
      let high := if above.isEmpty then high else high - 1
      let between :=
        if low ≤ high then [(low, high) :: List.replicate (digits + 1) (0, 63)] else []
      below ++ between ++ above

/-- The code points with equally many bytes: the first and the last one, how many bytes follow the
first byte, and what the first byte has on top of its digit. Surrogates have no bytes. -/
def utf8Blocks : List (Nat × Nat × Nat × Nat) := [
  (0, 0x7f, 0, 0), (0x80, 0x7ff, 1, 0xc0), (0x800, 0xd7ff, 2, 0xe0), (0xe000, 0xffff, 2, 0xe0),
  (0x10000, 0x10ffff, 3, 0xf0)]

/-- The bytes for ranges of digits. -/
def bytesOfDigits (mark : Nat) : List (Nat × Nat) → ByteSequence
  | [] => []
  | (low, high) :: rest =>
    (low + mark, high + mark) :: rest.map fun (low, high) => (low + 0x80, high + 0x80)

/-- The sequences of byte ranges for a range of code points. -/
def byteSequences (first last : Nat) : List ByteSequence :=
  utf8Blocks.flatMap fun (low, high, digits, mark) =>
    let first := max first low
    let last := min last high
    if first ≤ last then (digitSequences digits first last).map (bytesOfDigits mark) else []

end Text

/-- The sequences of byte ranges for a set of characters. -/
def CodeRanges.byteSequences (set : CodeRanges) : List Text.ByteSequence :=
  set.flatMap fun (first, last) => Text.byteSequences first last

end CssTransform
