/-!
# Paths

A path is a text. It is taken apart at its slashes, and what leads somewhere are the names among
its parts, since an empty part and a part `.` stay where they are. The name `..` leads from every
directory to the one above it, so that one location can be reached by many paths.

## Which choice is load-bearing

A location has no `..` in it. It is where a path arrives if every name along it leads somewhere, and
paths that arrive at one location lead to one file. Whether a path does arrive is a matter of the
tree.

## Main definitions

* `Path.parts`, `Path.names` — the parts between slashes, and the names among them
* `Path.step`, `Path.follow` — where names lead to
* `Path.location` — where a path leads to from the root
* `Path.child`, `Path.below` — the path of an entry of a directory, and of what is further below
* `Path.fileName?`, `Path.stripPrefix?` — the end of a path
* `Path.precedes` — the order of names
-/

namespace CssTransform

/-- A path as written. -/
abbrev Path := List Char

/-- A location in a tree of files: the names on the way to it from the root. -/
abbrev Location := List (List Char)

namespace Path

/-! ### Parts -/

/-- Whether a part of a path stays where it is. -/
def isIdle (part : List Char) : Bool := part == [] || part == ['.']

/-- The name that leads from a directory to the one above it. -/
def up : List Char := ['.', '.']

/-- Whether a path begins at the root. -/
def isAbsolute : Path → Bool
  | '/' :: _ => true
  | _ => false

/-- The parts of a path between its slashes. -/
def parts (path : Path) : List (List Char) := path.splitOn '/'

/-- The names along a path. -/
def names (path : Path) : List (List Char) := (parts path).filter fun part => !isIdle part

/-- Whether a name comes before another, or is the same: by its first character that differs. -/
def precedes : List Char → List Char → Bool
  | [], _ => true
  | _ :: _, [] => false
  | a :: s, b :: t => a < b || (a == b && precedes s t)

/-! ### Locations -/

/-- Where a part of a path leads to. The root is above itself. -/
def step (location : Location) (part : List Char) : Location :=
  if isIdle part then location
  else if part = up then location.dropLast
  else location ++ [part]

/-- Where the parts of a path lead to. -/
def follow (location : Location) (parts : List (List Char)) : Location := parts.foldl step location

/-- Where a path leads to from the root. -/
def location (path : Path) : Location := follow [] (parts path)

/-- The path of a location. -/
def ofLocation (location : Location) : Path := ['/'].intercalate location

/-! ### Paths made of others -/

/-- The path of an entry of a directory. -/
def child (directory : Path) (name : List Char) : Path :=
  match directory.getLast? with
  | none => name
  | some '/' => directory ++ name
  | some _ => directory ++ '/' :: name

/-- The path of what is some names below a directory. -/
def below (directory : Path) (names : List (List Char)) : Path := names.foldl child directory

/-- A path as seen from a directory. -/
def join (directory path : Path) : Path :=
  if isAbsolute path then path else child directory path

/-- The name of the file at the end of a path. -/
def fileName? (path : Path) : Option (List Char) :=
  (names path).getLast?.filter fun name => name != up

/-- The names that a path has behind those of another one. -/
def stripPrefix? (path root : Path) : Option (List (List Char)) :=
  if isAbsolute path = isAbsolute root ∧ names root <+: names path then
    some ((names path).drop (names root).length)
  else none

end Path

end CssTransform
