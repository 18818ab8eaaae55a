import CssTransform.Text.Blank

/-!
# The grammar of transform values

A value is a sequence of words and groups, a group being a name with a sequence of its own between
parentheses. Blanks, commas and slashes separate and are dropped. At each place a group is tried
first and a word after that, so a name that no parenthesis follows is read again as a word, and so
is a name whose parenthesis is never closed.

## Which choice is load-bearing

An attempt fails in one of two ways. After a *mismatch* another alternative is tried, and a sequence
that comes to one ends there. Nesting that is *too deep* ends everything, whatever alternatives are
left.

A name may hold any character beyond ASCII, also blank ones such as the no-break space, while a word
ends at every blank: the same text is cut differently according to whether it is read as a name or
again as words.

## Main definitions

* `Attempt` — what comes of reading something at the front of a text
* `either`, `many`, `spaced`, `sequence` — parsers made of others
* `node` — a group or a word
-/

namespace CssTransform

namespace Value

/-! ### Characters -/

/-- Separates the parts of a value and belongs to none. -/
def isSeparator (c : Char) : Bool := Text.isBlank c || c == ',' || c == '/'

/-- May stand in a word. -/
def isWordChar (c : Char) : Bool := !isSeparator c && c != '(' && c != ')'

/-- May begin a name. -/
def isNameStart (c : Char) : Bool := c.isAlpha || c == '-' || c == '_' || 0x80 ≤ c.toNat

/-- May stand in a name. -/
def isNameChar (c : Char) : Bool := isNameStart c || c.isDigit

/-- The longest name at the front of a text, possibly empty, and what follows it. -/
def takeName : List Char → List Char × List Char
  | [] => ([], [])
  | c :: rest =>
    if isNameStart c then (c :: rest.takeWhile isNameChar, rest.dropWhile isNameChar)
    else ([], c :: rest)

theorem takeName_append (text : List Char) : (takeName text).1 ++ (takeName text).2 = text := by
  cases text with
  | nil => rfl
  | cons c rest =>
    simp only [takeName]
    split
    · exact congrArg (c :: ·) List.takeWhile_append_dropWhile
    · rfl

/-! ### Attempts -/

/-- What comes of an attempt to read something at the front of a text. -/
inductive Attempt (α : Type) where
  /-- What was read, and the text after it. -/
  | taken (value : α) (rest : List Char)
  /-- Something else stands there. -/
  | mismatch
  /-- More groups would be open than allowed. -/
  | tooDeep

section Parsers

variable {α : Type}

/-- The second alternative counts where the first does not match. -/
def either (first second : List Char → Attempt α) (text : List Char) : Attempt α :=
  match first text with
  | .mismatch => second text
  | attempt => attempt

/-- As many as there are, after those found before, which are given last first. -/
def many (parser : List Char → Attempt α) (found : List α) (text : List Char) :
    Attempt (List α) :=
  match parser text with
  | .mismatch => .taken found.reverse text
  | .tooDeep => .tooDeep
  | .taken value rest =>
    -- without progress there would be no end
    if rest.length < text.length then many parser (value :: found) rest else .mismatch
termination_by text.length

/-- The text after what was taken, without separators in front. -/
def Attempt.skipSeparators : Attempt α → Attempt α
  | taken value rest => taken value (rest.dropWhile isSeparator)
  | mismatch => mismatch
  | tooDeep => tooDeep

/-- After separators, if there are any. -/
def spaced (parser : List Char → Attempt α) (text : List Char) : Attempt α :=
  parser (text.dropWhile isSeparator)

/-- As many as there are, with separators around them. -/
def sequence (parser : List Char → Attempt α) (text : List Char) : Attempt (List α) :=
  (many (spaced parser) [] text).skipSeparators

end Parsers

/-! ### Items -/

/-- A part of a value. -/
inductive Item where
  | word (text : List Char)
  | group (name : List Char) (items : List Item)

/-- A word. -/
def word (text : List Char) : Attempt Item :=
  match text.takeWhile isWordChar with
  | [] => .mismatch
  | c :: letters => .taken (.word (c :: letters)) (text.dropWhile isWordChar)

/-- A group, given how the inside of one is read. Its name may be empty. -/
def group (inside : List Char → Attempt (List Item)) (text : List Char) : Attempt Item :=
  match takeName text with
  | (name, '(' :: opened) =>
    match inside opened with
    | .taken items (')' :: rest) => .taken (.group name items) rest
    | .tooDeep => .tooDeep
    | _ => .mismatch
  | _ => .mismatch

/-- A group or a word, with room for that many groups in one another. -/
def node : Nat → List Char → Attempt Item
  | 0 => either (group fun _ => .tooDeep) word
  | room + 1 => either (group (sequence (node room))) word

end Value

end CssTransform
