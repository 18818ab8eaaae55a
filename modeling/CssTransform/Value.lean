import CssTransform.Call
import CssTransform.Numeric.Decimal.Numeral
import CssTransform.Text.Quoted
import CssTransform.Value.Grammar

/-!
# Transform values

A value is read whole, as a sequence of items. Where the sequence ends before the value does, the
failure is worded after what stands there: a parenthesis that closes nothing, or one that is never
closed. Only nesting that is too deep is an error of its own.

The groups at the top are the calls of the value. An argument is anything directly inside such a
group: the number at the front of a word, or no number for a group.

## Which choice is load-bearing

Every alternative has been tried when a sequence ends. So the text that a message shows is what is
left once names without a closed parenthesis have been read again as words, and it never begins
inside of a group.

## Main definitions

* `Value.ReadError` — why a value cannot be read, with `Value.ReadError.message`
* `Value.read` — the items of a value
* `Value.calls` — the calls of a value
-/

namespace CssTransform

namespace Value

/-- The most groups that may be open at once. -/
def maxNesting : Nat := 32

/-- Why a value cannot be read. -/
inductive ReadError where
  /-- More groups are open than allowed. -/
  | tooDeep
  /-- A parenthesis closes nothing. -/
  | unbalanced
  /-- The group that the text begins with is never closed. -/
  | unclosed (text : List Char)
deriving DecidableEq

namespace ReadError

/-- How much of the text of an unclosed group is shown. -/
def shownLength : Nat := 32

/-- The wording of an error. -/
def message : ReadError → List Char
  | tooDeep =>
    "parentheses nested deeper than ".toList ++ (toString maxNesting).toList ++ " levels".toList
  | unbalanced => "unbalanced parentheses".toList
  | unclosed text => "unexpected input at ".toList ++ Text.quoted (text.take shownLength)

end ReadError

/-! ### Reading -/

/-- The error for a text that is left over. -/
def ReadError.ofRest : List Char → ReadError
  | ')' :: _ => .unbalanced
  | rest => .unclosed rest

/-- The items of a value. -/
def read (text : List Char) : Except ReadError (List Item) :=
  match sequence (node maxNesting) text with
  | .taken items [] => .ok items
  | .taken _ rest => .error (.ofRest rest)
  | .mismatch => .error (.ofRest text)
  | .tooDeep => .error .tooDeep

/-! ### Calls -/

/-- The number at the front of a word. -/
def leadingNumber (word : List Char) : Option Binary64 :=
  (Numeral.leading? word).map Numeral.toBinary64

/-- The value of an argument. -/
def Item.argument : Item → Option Binary64
  | .word text => leadingNumber text
  | .group _ _ => none

/-- The call that an item at the top of a value is. -/
def Item.call? : Item → Option (Call Binary64)
  | .word _ => none
  | .group name items => some ⟨name, items.map Item.argument⟩

/-- The calls of a value. -/
def calls (text : List Char) : Except ReadError (List (Call Binary64)) :=
  (read text).map (List.filterMap Item.call?)

end Value

end CssTransform
