import CssTransform.Files.Path

/-!
# Trees of files

The files and directories that a run works on, as a table from locations to what is there, and the
directory that paths start from unless they start at the root. The root is the empty location and
always there.

Operations fail the way a file system does, and each failure has its wording. An operation of
several steps that fails leaves what the steps before have made.

## Which choice is load-bearing

A path is followed name by name, and `..` is a name like any other: it leads from a directory to the
one above it, and nowhere from a file or from where nothing is. So `a/../x.css` is `x.css` where
`a` is a directory, and nothing at all where it is not.

## Left out

There are directories and files with bytes, and no links, so that the directory above a directory
is told by its location. There are no owners or permissions, no names that are refused or too long,
and no device that is full or fails: what is there can be read, and where nothing is something can
be made. The directory that paths start from has not been removed, and nothing else changes the
tree during a run.

## Main definitions

* `Files.Tree` — the table, with `find?` as the way to look at it
* `Files.Tree.resolve` — what a path as written leads to
* `Files.Tree.locate` — the location that it leads to if it leads anywhere
* `Files.Tree.read`, `Files.Tree.makeDirectories`, `Files.Tree.write`
* `Files.Stopped` — a failure, and the tree by then
* `Files.Tree.names` — the sorted entries of a directory

## Main results

* `Files.Tree.find?_put` — what a change does to every location
-/

namespace CssTransform

namespace Files

/-- What a location holds. -/
inductive Node where
  | directory
  | file (content : ByteArray)

/-- Why an operation on files fails. -/
inductive Failure where
  | notFound
  | alreadyExists
  | notDirectory
  | isDirectory
  | nameTooLong
  | notText
deriving DecidableEq

namespace Failure

/-- The wording of a failure. -/
def message : Failure → List Char
  | notFound => "No such file or directory (os error 2)".toList
  | alreadyExists => "File exists (os error 17)".toList
  | notDirectory => "Not a directory (os error 20)".toList
  | isDirectory => "Is a directory (os error 21)".toList
  | nameTooLong => "File name too long (os error 36)".toList
  | notText => "stream did not contain valid UTF-8".toList

end Failure

/-- Files and directories by location. -/
structure Tree where
  entries : List (Location × Node)
  /-- The directory where relative paths start. -/
  workingDirectory : Location := []

/-- An operation that has failed, with the tree that it leaves. -/
structure Stopped where
  failure : Failure
  tree : Tree

/-- The wording of the failure of an operation. -/
def Stopped.message (stopped : Stopped) : List Char := stopped.failure.message

namespace Tree

/-- A tree with nothing but the root. -/
def empty : Tree where
  entries := []

/-! ### Looking and changing -/

/-- What a location holds. -/
def find? (tree : Tree) (location : Location) : Option Node :=
  if location = [] then some .directory else tree.entries.lookup location

/-- The entries of a table with one put in, in place of the one that is there. -/
def putEntry (location : Location) (node : Node) :
    List (Location × Node) → List (Location × Node)
  | [] => [(location, node)]
  | (l, old) :: rest =>
    if l = location then (l, node) :: rest else (l, old) :: putEntry location node rest

/-- A tree with a location changed. -/
def put (tree : Tree) (location : Location) (node : Node) : Tree :=
  { tree with entries := putEntry location node tree.entries }

theorem lookup_cons_eq_ite (location l : Location) (node : Node)
    (entries : List (Location × Node)) :
    ((location, node) :: entries).lookup l =
      if l = location then some node else entries.lookup l := by
  rw [List.lookup_cons]
  by_cases h : l = location
  · rw [if_pos h, beq_iff_eq.2 h]
  · rw [if_neg h, beq_eq_false_iff_ne.2 h]

theorem lookup_putEntry (location l : Location) (node : Node) (entries : List (Location × Node)) :
    (putEntry location node entries).lookup l =
      if l = location then some node else entries.lookup l := by
  induction entries with
  | nil => exact lookup_cons_eq_ite location l node []
  | cons entry rest ih =>
    obtain ⟨k, old⟩ := entry
    rw [putEntry, lookup_cons_eq_ite]
    by_cases hk : k = location
    · rw [if_pos hk, lookup_cons_eq_ite, hk]
      by_cases h : l = location <;> simp [h]
    · rw [if_neg hk, lookup_cons_eq_ite, ih]
      by_cases h : l = k
      · simp [h, hk]
      · simp [h]

@[simp] theorem find?_nil (tree : Tree) : tree.find? [] = some .directory := rfl

@[simp] theorem workingDirectory_put (tree : Tree) (location : Location) (node : Node) :
    (tree.put location node).workingDirectory = tree.workingDirectory := rfl

/-- A change is seen at its location and nowhere else. -/
theorem find?_put (tree : Tree) {location : Location} (hne : location ≠ []) (node : Node)
    (l : Location) :
    (tree.put location node).find? l = if l = location then some node else tree.find? l := by
  unfold find?
  by_cases hl : l = []
  · have : l ≠ location := fun h => hne (h ▸ hl)
    simp [hl, hne.symm]
  · simp [hl, put, lookup_putEntry]

/-- The names of the entries of a directory, sorted. -/
def names (tree : Tree) (location : Location) : List (List Char) :=
  (tree.entries.filterMap fun (l, _) =>
    if l.dropLast = location then l.getLast? else none).mergeSort Path.precedes

/-- The files of a tree with their paths from the root, sorted. -/
def files (tree : Tree) : List (Path × ByteArray) :=
  (tree.entries.filterMap fun (l, node) =>
    match node with
    | .file content => some (Path.ofLocation l, content)
    | .directory => none).mergeSort fun a b => Path.precedes a.1 b.1

/-! ### Paths as written -/

/-- Where a path starts. -/
def start (tree : Tree) (path : Path) : Location :=
  if Path.isAbsolute path then [] else tree.workingDirectory

/-- The names from the root to the end of a path. -/
def way (tree : Tree) (path : Path) : List (List Char) := tree.start path ++ Path.names path

/-- Where a path leads to, if each of its names leads somewhere. -/
def locate (tree : Tree) (path : Path) : Location := Path.follow [] (tree.way path)

/-- What the parts of a path lead to from a location. Every part but the last must lead to a
directory. -/
def resolveFrom (tree : Tree) (location : Location) (node : Node) :
    List (List Char) → Except Failure (Location × Node)
  | [] => .ok (location, node)
  | part :: rest =>
    match node with
    | .file _ => .error .notDirectory
    | .directory =>
      match tree.find? (Path.step location part) with
      | none => .error .notFound
      | some next => tree.resolveFrom (Path.step location part) next rest

/-- What a path leads to. The empty path leads nowhere. -/
def resolve (tree : Tree) (path : Path) : Except Failure (Location × Node) :=
  if path = [] then .error .notFound
  else tree.resolveFrom [] .directory (tree.start path ++ Path.parts path)

/-- Whether a path leads to a file. -/
def isFile (tree : Tree) (path : Path) : Bool :=
  match tree.resolve path with
  | .ok (_, .file _) => true
  | _ => false

/-! ### Reading and writing -/

/-- The text of a file's bytes. -/
def textOf (content : ByteArray) : Except Failure (List Char) :=
  match String.fromUTF8? content with
  | some text => .ok text.toList
  | none => .error .notText

/-- The bytes of a text. -/
def bytesOf (text : List Char) : ByteArray := (String.ofList text).toUTF8

/-- The text of a file. -/
def read (tree : Tree) (location : Location) : Except Failure (List Char) :=
  match tree.find? location with
  | none => .error .notFound
  | some .directory => .error .isDirectory
  | some (.file content) => textOf content

/-- Makes the directories along names from a location that are missing. A file in the way is where
the directory was to be made, if no name follows. So it is behind a directory that has been `made`,
since from there on the directories are made one by one. -/
def makeDirectoriesFrom (made : Bool) (location : Location) :
    List (List Char) → Tree → Except Stopped Tree
  | [], tree => .ok tree
  | name :: rest, tree =>
    match tree.find? (Path.step location name) with
    | none =>
      makeDirectoriesFrom true (Path.step location name) rest
        (tree.put (Path.step location name) .directory)
    | some .directory => makeDirectoriesFrom made (Path.step location name) rest tree
    | some (.file _) =>
      .error ⟨if rest = [] ∨ made then .alreadyExists else .notDirectory, tree⟩

/-- Makes the directory that names lead to from the root, and those on the way, if they are
missing. -/
def makeDirectories (names : List (List Char)) (tree : Tree) : Except Stopped Tree :=
  makeDirectoriesFrom false [] names tree

/-- Writes a file whose directory is there. -/
def write (location : Location) (text : List Char) (tree : Tree) : Except Stopped Tree :=
  match tree.find? location with
  | some .directory => .error ⟨.isDirectory, tree⟩
  | _ => .ok (tree.put location (.file (bytesOf text)))

end Tree

end Files

end CssTransform
