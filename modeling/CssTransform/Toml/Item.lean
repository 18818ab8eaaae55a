/-!
# What a TOML document holds

A document is a table. Its tables remember how they came to be, because that decides how they may
still grow: a table may be opened by one header only, but a header may be given later for a table
that so far was only passed through, and dotted keys may add to a table that dotted keys made.

## Which choice is load-bearing

Insertion walks along a path of keys and is recursive on the path alone, whatever it finds at each
key. A path that goes through an array of tables goes through its last table.

## Main definitions

* `Toml.Item`, `Toml.Origin`, `Toml.Entries`
* `Toml.insertDotted?` — a value under a dotted key
* `Toml.openTable?`, `Toml.openElement?` — the table of a header
-/

namespace CssTransform

namespace Toml

/-- A key. -/
abbrev Key := List Char

/-- How a table came to be. -/
inductive Origin where
  /-- By a header of its own. -/
  | header
  /-- On the way to the table of a header. -/
  | parent
  /-- On the way of a dotted key. -/
  | dotted
  /-- Written as a value. -/
  | inlineTable
deriving DecidableEq

/-- A value or a table. -/
inductive Item where
  | string (text : List Char)
  | boolean (value : Bool)
  /-- A number, date or time. It has been checked and is not kept. -/
  | scalar
  | array (items : List Item)
  | table (origin : Origin) (entries : List (Key × Item))
  /-- An array of tables, each opened by a header. -/
  | tables (elements : List (List (Key × Item)))

/-- The entries of a table, in the order in which they came. -/
abbrev Entries := List (Key × Item)

namespace Entries

/-- The item under a key. -/
def find? (entries : Entries) (key : Key) : Option Item := List.lookup key entries

/-- An item put under a key, in place of the one that is there. -/
def put (entries : Entries) (key : Key) (item : Item) : Entries :=
  match entries with
  | [] => [(key, item)]
  | (k, old) :: rest => if k = key then (k, item) :: rest else (k, old) :: put rest key item

end Entries

/-- The tables of an array with the last one changed. -/
def changeLast? (change : Entries → Option Entries) : List Entries → Option (List Entries)
  | [] => none
  | [last] => (change last).map ([·])
  | first :: rest => (changeLast? change rest).map (first :: ·)

/-- Changes the table at the end of the path of a header. Tables on the way are made if need be. -/
def changeAlong? (change : Entries → Option Entries) : List Key → Entries → Option Entries
  | [], entries => change entries
  | key :: path, entries =>
    match entries.find? key with
    | none => (changeAlong? change path []).map fun inner => entries.put key (.table .parent inner)
    | some (.table .inlineTable _) => none
    | some (.table origin inner) =>
      (changeAlong? change path inner).map fun inner => entries.put key (.table origin inner)
    | some (.tables elements) =>
      (changeLast? (changeAlong? change path) elements).map fun elements =>
        entries.put key (.tables elements)
    | some _ => none

/-- Puts a value under a key that is not taken. -/
def insertNew? (key : Key) (value : Item) (entries : Entries) : Option Entries :=
  match entries.find? key with
  | none => some (entries.put key value)
  | some _ => none

/-- Puts a value under a key at the end of a path of dotted keys. The table there must have been
made by dotted keys, unless it is the one at which the path begins. -/
def insertAlong? (key : Key) (value : Item) : Origin → List Key → Entries → Option Entries
  | origin, [], entries => if origin = .dotted then insertNew? key value entries else none
  | _, k :: path, entries =>
    match entries.find? k with
    | none =>
      (insertAlong? key value .dotted path []).map fun inner => entries.put k (.table .dotted inner)
    | some (.table .parent inner) =>
      (insertAlong? key value .parent path inner).map fun inner =>
        entries.put k (.table .parent inner)
    | some (.table .dotted inner) =>
      (insertAlong? key value .dotted path inner).map fun inner =>
        entries.put k (.table .dotted inner)
    | some (.tables elements) =>
      (changeLast? (insertAlong? key value .header path) elements).map fun elements =>
        entries.put k (.tables elements)
    | some _ => none

/-- Puts a value under a dotted key, given as its path and its last part. -/
def insertDotted? (path : List Key) (key : Key) (value : Item) (entries : Entries) :
    Option Entries :=
  match path with
  | [] => insertNew? key value entries
  | path => insertAlong? key value .header path entries

/-- Opens the table of a header, given as its path and its last key, and fills it. -/
def openTable? (fill : Entries → Option Entries) (path : List Key) (key : Key) :
    Entries → Option Entries :=
  changeAlong? (fun entries =>
    match entries.find? key with
    | none => (fill []).map fun inner => entries.put key (.table .header inner)
    | some (.table .parent inner) =>
      (fill inner).map fun inner => entries.put key (.table .header inner)
    | some _ => none) path

/-- Opens one more table of an array of tables, given as its path and its key, and fills it. -/
def openElement? (fill : Entries → Option Entries) (path : List Key) (key : Key) :
    Entries → Option Entries :=
  changeAlong? (fun entries =>
    match entries.find? key with
    | none => (fill []).map fun inner => entries.put key (.tables [inner])
    | some (.tables elements) =>
      (fill []).map fun inner => entries.put key (.tables (elements ++ [inner]))
    | some _ => none) path

end Toml

end CssTransform
