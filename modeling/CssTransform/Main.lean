import CssTransform.Command

/-!
# The program

What a command looks at is loaded from the disk into a tree of files, the command is run on the
tree, and the files that it has changed are written back. All decisions are made in
`CssTransform.Command`.
-/

namespace CssTransform

namespace Files

/-- The text of the absolute path of a location. Joined to a directory it stays what it is. -/
def pathText (location : Location) : String := String.ofList ('/' :: Path.ofLocation location)

/-- Loads what is at a location, without what is below it. -/
def loadNode? (location : Location) : IO (Option Node) := do
  let path := (← IO.currentDir) / pathText location
  if ← path.isDir then return some .directory
  else if ← path.pathExists then return some (.file (← IO.FS.readBinFile path))
  else return none

/-- Loads what is below a directory. -/
partial def loadBelow (location : Location) (tree : Tree) : IO Tree := do
  let mut tree := tree
  for entry in ← ((← IO.currentDir) / pathText location).readDir do
    let location := location ++ [entry.fileName.toList]
    if let some node ← loadNode? location then
      tree := tree.put location node
      if node matches .directory then tree ← loadBelow location tree
  return tree

/-- Loads what is along the names from the root, and what is below the last of them. -/
def loadAlong (names : List (List Char)) (tree : Tree) : IO Tree := do
  let mut tree := tree
  let mut location := []
  for name in names do
    location := Path.step location name
    if let some node ← loadNode? location then tree := tree.put location node
  if tree.find? location matches some .directory then return ← loadBelow location tree
  return tree

/-- Loads what paths lead to. -/
def load (paths : List Path) : IO Tree := do
  let directory := (← IO.currentDir).toString.toList
  let tree := { Tree.empty with workingDirectory := Path.location directory }
  paths.foldlM (fun tree path => loadAlong (tree.way path) tree) tree

/-- Whether a location held a node before. -/
def Node.isIn : Node → Option Node → Bool
  | directory, some directory => true
  | file content, some (file old) => content == old
  | _, _ => false

/-- Writes the files that differ between two trees. -/
def store (before after : Tree) : IO Unit := do
  for (location, node) in after.entries do
    unless node.isIn (before.find? location) do
      let path := (← IO.currentDir) / pathText location
      match node with
      | .directory => IO.FS.createDirAll path
      | .file content => IO.FS.writeBinFile path content

end Files

end CssTransform

open CssTransform in
/-- Runs the command that the arguments ask for. -/
def main (args : List String) : IO UInt32 := do
  let arguments := args.map String.toList
  let tree ← Files.load (((Command.read arguments).toOption.map Command.paths).getD [])
  let answer := Command.answer tree arguments
  Files.store tree answer.tree
  IO.print (String.ofList answer.output)
  return answer.exitCode.toUInt32
