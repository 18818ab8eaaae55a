import CssTransform.Text.CodeRanges

/-!
# Sets of characters with a name

Inside the brackets of a set, some sets of ASCII characters can be named.

## Main definitions

* `CodeRanges.ofAsciiName?`
-/

namespace CssTransform

namespace CodeRanges

/-- The characters in the ranges between pairs of characters, which are given in order. -/
def ofChars (ranges : List (Char × Char)) : CodeRanges :=
  ranges.map fun (first, last) => (first.toNat, last.toNat)

/-- The set of ASCII characters with a name. -/
def ofAsciiName? (name : String) : Option CodeRanges :=
  match name with
  | "alnum" => some (ofChars [('0', '9'), ('A', 'Z'), ('a', 'z')])
  | "alpha" => some (ofChars [('A', 'Z'), ('a', 'z')])
  | "ascii" => some (ofChars [('\x00', '\x7f')])
  | "blank" => some (ofChars [('\t', '\t'), (' ', ' ')])
  | "cntrl" => some (ofChars [('\x00', '\x1f'), ('\x7f', '\x7f')])
  | "digit" => some (ofChars [('0', '9')])
  | "graph" => some (ofChars [('!', '~')])
  | "lower" => some (ofChars [('a', 'z')])
  | "print" => some (ofChars [(' ', '~')])
  | "punct" => some (ofChars [('!', '/'), (':', '@'), ('[', '\x60'), ('\x7b', '~')])
  | "space" => some (ofChars [('\t', '\r'), (' ', ' ')])
  | "upper" => some (ofChars [('A', 'Z')])
  | "word" => some (ofChars [('0', '9'), ('A', 'Z'), ('_', '_'), ('a', 'z')])
  | "xdigit" => some (ofChars [('0', '9'), ('A', 'F'), ('a', 'f')])
  | _ => none

end CodeRanges

end CssTransform
