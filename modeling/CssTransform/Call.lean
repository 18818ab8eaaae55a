import CssTransform.TransformFunction

/-!
# Calls of transform functions

A call is a name, as written, and its arguments. An argument without a number in front, such as
`auto`, keeps its place but has no value, and counts as missing wherever a default applies.
-/

namespace CssTransform

/-- A call with arguments of some type of numbers. -/
structure Call (α : Type) where
  name : List Char
  args : List (Option α)
deriving DecidableEq

namespace Call

variable {α : Type}

/-- The function that is called, if its name is one. -/
def function? (call : Call α) : Option TransformFunction := TransformFunction.ofName? call.name

/-- The canonical spelling of the name; a name of no function stays as written. -/
def canonicalName (call : Call α) : List Char :=
  match call.function? with
  | some f => f.name
  | none => call.name

/-- The argument at an index, if it is there and has a value. -/
def arg? (call : Call α) (index : Nat) : Option α := call.args[index]?.join

/-- The argument at an index, or a default. -/
def arg (call : Call α) (index : Nat) (default : α) : α := (call.arg? index).getD default

end Call

end CssTransform
