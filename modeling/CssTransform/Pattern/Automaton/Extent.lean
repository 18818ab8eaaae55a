import Std.Data.HashMap

/-!
# How large an automaton has become

The automaton of a pattern is never built here; what counts is how large it would be. States are
numbered in the order in which they are laid out, and each takes memory: a fixed amount, and more
for a state that leads on in several ways.

## Which choice is load-bearing

States that lead on alike are one state, if the state laid out before is found again. It is looked
up in a table with a fixed number of places, and there a later state takes the place of an earlier
one with the same hash. The numbers of states take part in the hash, so how much is shared depends
on what was laid out before.

## Main definitions

* `Extent` — how many states there are, and how much memory they take
* `Sharing` — an extent, with a table of states that may be found again
* `Sharing.state` — a state, found again or laid out
-/

namespace CssTransform

/-- How many states an automaton has so far, and how many bytes they take. -/
structure Extent where
  states : Nat
  bytes : Nat
deriving DecidableEq

namespace Extent

/-- The bytes that every state takes. -/
def stateBytes : Nat := 32

/-- The bytes for a way on that is bound to a range of bytes of the text. -/
def rangeBytes : Nat := 8

/-- The bytes for a way on that is not. -/
def branchBytes : Nat := 4

/-- Nothing laid out yet. -/
def zero : Extent := ⟨0, 0⟩

/-- States laid out one after the other, none with more than one way on. -/
def plain (e : Extent) (count : Nat) : Extent :=
  ⟨e.states + count, e.bytes + stateBytes * count⟩

/-- A state with so many ways on that are bound to ranges. -/
def ranges (e : Extent) (count : Nat) : Extent :=
  ⟨e.states + 1, e.bytes + stateBytes + rangeBytes * count⟩

/-- A state with so many ways on that are not. -/
def branches (e : Extent) (count : Nat) : Extent :=
  ⟨e.states + 1, e.bytes + stateBytes + branchBytes * count⟩

@[simp] theorem states_plain (e : Extent) (n : Nat) : (e.plain n).states = e.states + n := rfl

@[simp] theorem states_ranges (e : Extent) (n : Nat) : (e.ranges n).states = e.states + 1 := rfl

@[simp] theorem states_branches (e : Extent) (n : Nat) : (e.branches n).states = e.states + 1 := rfl

end Extent

/-- An extent, with the states that may be found again. -/
structure Sharing where
  extent : Extent
  /-- How many places the table has. -/
  places : Nat
  /-- By its place, a state's key and number. -/
  table : Std.HashMap Nat (List Nat × Nat)

namespace Sharing

/-- An empty table with a number of places. -/
def start (extent : Extent) (places : Nat) : Sharing := ⟨extent, places, ∅⟩

/-- The hash of a key, after Fowler, Noll and Vo. -/
def hash (key : List Nat) : UInt64 :=
  key.foldl (fun h n => (h ^^^ n.toUInt64) * 1099511628211) 14695981039346656037

/-- The place of a key. -/
def place (s : Sharing) (key : List Nat) : Nat := (hash key).toNat % s.places

/-- The number of the state with a key, if the state is still in the table. -/
def find? (s : Sharing) (key : List Nat) : Option Nat :=
  match s.table[s.place key]? with
  | some (found, number) => if found = key then some number else none
  | none => none

/-- The number of the state with a key. If it is not in the table, it is laid out, as a state with
so many ways on that are bound to ranges. -/
def state (s : Sharing) (key : List Nat) (ranges : Nat) : Nat × Sharing :=
  match s.find? key with
  | some number => (number, s)
  | none =>
    let number := s.extent.states
    (number,
      { s with
        extent := s.extent.ranges ranges
        table := s.table.insert (s.place key) (key, number) })

end Sharing

end CssTransform
