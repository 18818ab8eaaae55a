import CssTransform.Toml.Item
import CssTransform.Toml.Quoted
import CssTransform.Toml.Scalar

/-!
# TOML documents

A document is read line by line into headers and entries, and these are put together into tables.
It is refused as a whole if anything in it is not right, also where nobody will look.

## Which choice is load-bearing

Values nest to a limited depth, and reading them is recursive on the depth that is left. The loops
over the elements of an array and the lines of a document take a bound from the length of the text,
of which every turn consumes at least one character.

## Main definitions

* `Toml.value?` — a value
* `Toml.read?` — the entries of a document
-/

namespace CssTransform

namespace Toml

/-! ### Keys -/

/-- A character of a key without quotes. -/
def isBareKeyChar (c : Char) : Bool := c.isAlphanum || c == '_' || c == '-'

/-- A key. -/
def key? : Reader Key := fun text =>
  match quotedKey? text with
  | some found => some found
  | none =>
    match text.takeWhile isBareKeyChar with
    | [] => none
    | key => some (key, text.dropWhile isBareKeyChar)

/-- The most parts that a dotted key may have, and the depth that values may not reach. -/
def nestingLimit : Nat := 80

/-- The parts of a dotted key, with spaces around each. -/
def keysFrom? : Nat → Reader (List Key)
  | 0, _ => none
  | bound + 1, text => do
    let (key, rest) ← key? (skipSpaces text)
    match skipSpaces rest with
    | '.' :: rest => do
      let (keys, rest) ← keysFrom? bound rest
      some (key :: keys, rest)
    | rest => some ([key], rest)

/-- A dotted key, as its path and its last part. -/
def dottedKey? : Reader (List Key × Key) := fun text => do
  let (keys, rest) ← keysFrom? (nestingLimit - 1) text
  let key ← keys.getLast?
  some ((keys.dropLast, key), rest)

/-! ### Values -/

/-- The elements of an array up to its bracket, which a comma may precede. -/
def elements? (element : Reader Item) : Nat → Reader (List Item)
  | 0, _ => none
  | bound + 1, text => do
    match ← skipBlankLines text with
    | ']' :: rest => some ([], rest)
    | text => do
      let (item, rest) ← element text
      match ← skipBlankLines rest with
      | ']' :: rest => some ([item], rest)
      | ',' :: rest => do
        let (items, rest) ← elements? element bound rest
        some (item :: items, rest)
      | _ => none

/-- An entry: a key, an equals sign and a value. -/
def entry? (value : Reader Item) : Reader ((List Key × Key) × Item) := fun text => do
  let (key, rest) ← dottedKey? text
  let (item, rest) ← value (skipSpaces (← expect '=' rest))
  some ((key, item), rest)

/-- The entries of a table on one line up to its bracket, after the entries found before. -/
def inlineEntries? (value : Reader Item) : Nat → Entries → Reader Entries
  | 0, _, _ => none
  | bound + 1, found, text => do
    let (((path, key), item), rest) ← entry? value text
    let entries ← insertDotted? path key item found
    match skipSpaces rest with
    | '\x7d' :: rest => some (entries, rest)
    | ',' :: rest => inlineEntries? value bound entries rest
    | _ => none

/-- A number, a date or a time. -/
def scalar? (text : List Char) : Option (List Char) :=
  match moment? text with
  | some rest => some rest
  | none =>
    match float? text with
    | some (_, rest) => some rest
    | none => (integer? text).map (·.2)

/-- A value that holds no other values. -/
def simpleValue? : Reader Item
  | 't' :: 'r' :: 'u' :: 'e' :: rest => some (.boolean true, rest)
  | 'f' :: 'a' :: 'l' :: 's' :: 'e' :: rest => some (.boolean false, rest)
  | text =>
    match quoted? text with
    | some (string, rest) => some (.string string, rest)
    | none => (scalar? text).map fun rest => (.scalar, rest)

/-- A value, given how much deeper arrays and tables may nest. -/
def valueWithin? : Nat → Reader Item
  | 0, text =>
    match text with
    | '[' :: _ => none
    | '\x7b' :: _ => none
    | _ => simpleValue? text
  | depth + 1, text =>
    match text with
    | '[' :: rest => do
      let (items, rest) ← elements? (valueWithin? depth) text.length rest
      some (.array items, rest)
    | '\x7b' :: rest => do
      match skipSpaces rest with
      | '\x7d' :: rest => some (.table .inlineTable [], rest)
      | rest => do
        let (entries, rest) ← inlineEntries? (valueWithin? depth) text.length [] rest
        some (.table .inlineTable entries, rest)
    | _ => simpleValue? text

/-- A value. -/
def value? : Reader Item := valueWithin? (nestingLimit - 1)

/-! ### Lines -/

/-- What a line of a document says. -/
inductive Line where
  | blank
  /-- The header of a table. -/
  | table (path : List Key) (key : Key)
  /-- The header of one more table of an array. -/
  | element (path : List Key) (key : Key)
  | entry (path : List Key) (key : Key) (value : Item)

/-- A header, after its first bracket. -/
def header? : Reader Line
  | '[' :: rest => do
    let ((path, key), rest) ← dottedKey? rest
    some (.element path key, ← expect ']' (← expect ']' rest))
  | rest => do
    let ((path, key), rest) ← dottedKey? rest
    some (.table path key, ← expect ']' rest)

/-- What a line says, up to the end of the line. -/
def lineContent? : Reader Line
  | [] => some (.blank, [])
  | '#' :: rest => some (.blank, '#' :: rest)
  | '[' :: rest => header? rest
  | c :: rest =>
    if c = '\n' ∨ c = '\r' then some (.blank, c :: rest)
    else do
      let (((path, key), value), rest) ← entry? value? (c :: rest)
      some (.entry path key value, rest)

/-- The lines of a document. -/
def lines? : Nat → List Char → Option (List Line)
  | 0, _ => none
  | _, [] => some []
  | bound + 1, text => do
    let (line, rest) ← lineContent? (skipSpaces text)
    some (line :: (← lines? bound (← lineEnd? rest)))

/-! ### Sections -/

/-- The entries under a header. -/
structure Section where
  header : Line
  /-- The entries, last first. -/
  entries : List ((List Key × Key) × Item)

/-- The sections of a document, the last one given first. The entries before any header are under a
blank line. -/
def sections (lines : List Line) : List Section :=
  lines.foldl (fun found line =>
    match line, found with
    | .blank, found => found
    | .entry path key value, s :: found =>
      { s with entries := ((path, key), value) :: s.entries } :: found
    | .entry _ _ _, [] => []
    | header, found => ⟨header, []⟩ :: found) [⟨.blank, []⟩]

/-- Adds the entries of a section to its table. -/
def Section.fill? (s : Section) (entries : Entries) : Option Entries :=
  s.entries.reverse.foldlM (fun entries ((path, key), value) =>
    insertDotted? path key value entries) entries

/-- Adds a section to a document. -/
def Section.addTo? (document : Entries) (s : Section) : Option Entries :=
  match s.header with
  | .table path key => openTable? s.fill? path key document
  | .element path key => openElement? s.fill? path key document
  | _ => s.fill? document

/-- The byte order mark that may precede a document. -/
def skipMark : List Char → List Char
  | '\ufeff' :: rest => rest
  | text => text

/-- The entries of a document. -/
def read? (text : List Char) : Option Entries := do
  let text := skipMark text
  let lines ← lines? (text.length + 1) text
  (sections lines).reverse.foldlM Section.addTo? []

end Toml

end CssTransform
