import CssTransform.Files.Report
import CssTransform.Files.Tree
import CssTransform.Pattern.Text
import CssTransform.Stylesheet

/-!
# Runs over files

A run goes through its roots in order. A root that is a file is compiled if its path matches the
pattern; a root that is a directory is walked, and so is every directory in it, entries in the order
of their names. What cannot be done is reported, and the run goes on.

## Which choice is load-bearing

The tree is threaded through the whole run, and every step sees what the steps before it have
written. A directory's entries are fixed when it is entered, before anything in it is compiled;
what is written into it later is not visited, but a directory entered later is read as it then is.

Where a compiled file goes is told by paths, by its own and that of its root, as they are written.
Different paths can lead to one target.

A walk goes down a bounded number of levels. A path of more levels is longer than a file system
accepts.

## Left out

Messages about progress are left out. What a run works on is a tree of files and directories
(`Files.Tree`): there are no links that a walk would have to pass by, no directory that cannot be
read, and no write that fails halfway.

## Main definitions

* `Files.Job` — what a run is asked to do
* `Files.Job.target` — where the compiled file goes
* `Files.Job.compileFile`, `Files.Job.process` — one file
* `Files.Job.visit` — a walk from a path on
* `Files.Job.run` — all roots
-/

namespace CssTransform

namespace Files

/-- What a run is asked to do. -/
structure Job where
  settings : Settings
  /-- The paths of the files to compile. -/
  filter : Pattern
  /-- Where compiled files go; to their own places if there is none. -/
  outDir : Option Path
  /-- Report only. -/
  dryRun : Bool

/-- A tree and the reports so far, last first. -/
structure Progress where
  tree : Tree
  reports : List Report

namespace Progress

/-- One more report. -/
def report (p : Progress) (r : Report) : Progress := { p with reports := r :: p.reports }

end Progress

namespace Job

/-- The job of some settings; there is none if their pattern is not one. -/
def ofSettings? (settings : Settings) (outDir : Option Path) (dryRun : Bool) : Option Job :=
  (Pattern.ofText? settings.test).map fun filter => ⟨settings, filter, outDir, dryRun⟩

/-- What is put behind the output directory for a file of a root: its name, if the root is the file,
and otherwise the names that lead to it from the root. -/
def relative? (tree : Tree) (root path : Path) : Option (List (List Char)) :=
  if tree.isFile root then (Path.fileName? path).map fun name => [name]
  else Path.stripPrefix? path root

/-- Where the compiled file goes: to its own path, or under the output directory. -/
def target (job : Job) (root path : Path) (tree : Tree) : Path :=
  match job.outDir with
  | none => path
  | some directory =>
    match relative? tree root path with
    | some names => Path.below directory names
    | none => Path.join directory path

/-- Writes a compiled text to its target, unless the run only reports. -/
def store (job : Job) (target : Path) (text : List Char) (tree : Tree) : Except Stopped Tree :=
  if job.dryRun then .ok tree
  else do
    let made ← tree.makeDirectories (tree.way target).dropLast
    made.write (tree.locate target) text

/-- Compiles one file: what happened, and the tree after it. -/
def compileFile (job : Job) (root path : Path) (location : Location) (tree : Tree) :
    Outcome × Tree :=
  match tree.read location with
  | .error failure => (.failed failure.message, tree)
  | .ok css =>
    let result := Stylesheet.compile job.settings css
    if result.isModified then
      match job.store (job.target root path tree) result.css tree with
      | .ok stored => (.changed result.converted result.unchanged, stored)
      | .error stopped => (.failed stopped.message, stopped.tree)
    else (.untouched result.unchanged, tree)

/-- Compiles one file if its path matches, and reports. -/
def process (job : Job) (root path : Path) (location : Location) (p : Progress) : Progress :=
  if job.filter.isMatch path then
    let (outcome, after) := job.compileFile root path location p.tree
    { p with tree := after }.report ⟨path, outcome⟩
  else p

/-- The most levels that a walk goes down. -/
def maxLevels : Nat := 2048

/-- The wording of a failure to look at a path. -/
def scanMessage (path : Path) (failure : Failure) : List Char :=
  "IO error for operation on ".toList ++ path ++ ": ".toList ++ failure.message

/-- The report of a failure to look at a path. -/
def scanFailure (path : Path) (failure : Failure) : Report :=
  ⟨path, .failed (scanMessage path failure)⟩

/-- Walks from a path on: a file is processed, the entries of a directory are walked. -/
def visit (job : Job) (root : Path) : Nat → Path → Location → Progress → Progress
  | 0, path, _, p => p.report (scanFailure path .nameTooLong)
  | levels + 1, path, location, p =>
    match p.tree.find? location with
    | none => p.report (scanFailure path .notFound)
    | some (.file _) => job.process root path location p
    | some .directory =>
      (p.tree.names location).foldl (fun p name =>
        job.visit root levels (Path.child path name) (location ++ [name]) p) p

/-- Goes through a root. -/
def visitRoot (job : Job) (root : Path) (p : Progress) : Progress :=
  match p.tree.resolve root with
  | .error failure => p.report (scanFailure root failure)
  | .ok (location, .file _) => job.process root root location p
  | .ok (location, .directory) => job.visit root maxLevels root location p

/-- Goes through all roots: the tree after the run, and the reports in order. -/
def run (job : Job) (roots : List Path) (tree : Tree) : Tree × List Report :=
  let p := roots.foldl (fun p root => job.visitRoot root p) ⟨tree, []⟩
  (p.tree, p.reports.reverse)

end Job

end Files

end CssTransform
