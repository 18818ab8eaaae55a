import CssTransform.Command.Arguments
import CssTransform.Files.Run
import CssTransform.Settings.Toml

/-!
# The command

There are two subcommands: one converts values given as arguments, the other compiles files. A
command is read from its arguments and then run on a tree of files, which gives an exit code, a
text for standard output and the tree afterwards.

## Main definitions

* `Command`, `Command.read` — what the arguments ask for
* `Command.Answer`, `Command.run` — what comes of it
* `Command.answer` — both together
-/

namespace CssTransform

/-- What the arguments ask for. -/
inductive Command where
  | convertValues (policy : InvalidCallPolicy) (values : List (List Char))
  | compileFiles (roots : List Path) (settingsFile : Option Path) (keepWritten : Bool)
    (test : Option (List Char)) (abortOnInvalid : Bool) (outDir : Option Path) (dryRun : Bool)
deriving DecidableEq

namespace Command

/-! ### Reading -/

/-- The long name of the flag for messages about progress. -/
def verbose : Argument := "verbose".toList

/-- The options of every level. -/
def commonOptions : List (Argument × OptionKind) :=
  [(verbose, .flag), ("help".toList, .help)]

/-- The letters of every level. -/
def commonLetters : List (Char × Argument) := [('v', verbose), ('h', "help".toList)]

/-- The options before the subcommand. -/
def topTable : OptionTable where
  options := ("version".toList, .version) :: commonOptions
  letters := ('V', "version".toList) :: commonLetters
  values := .text

/-- The options of the subcommand that converts values. -/
def valuesTable : OptionTable where
  options := ("abort-on-invalid".toList, .flag) :: commonOptions
  letters := commonLetters
  values := .text

/-- The options of the subcommand that compiles files. -/
def filesTable : OptionTable where
  options :=
    [("config".toList, .option .path), ("keep-original".toList, .flag),
      ("test".toList, .option .text), ("abort-on-invalid".toList, .flag),
      ("out-dir".toList, .option .path), ("dry-run".toList, .flag)] ++ commonOptions
  letters := commonLetters
  values := .path

/-- Reads the arguments of the subcommand that converts values. At least one is needed. -/
def readValues (arguments : List Argument) : Except Stop Command := do
  let a ← Arguments.read valuesTable arguments
  if a.values.isEmpty then throw .usage
  return .convertValues (if a.has "abort-on-invalid" then .abort else .skip) a.values

/-- Reads the arguments of the subcommand that compiles files. At least one root is needed. -/
def readFiles (arguments : List Argument) : Except Stop Command := do
  let a ← Arguments.read filesTable arguments
  if a.values.isEmpty then throw .usage
  return .compileFiles a.values (a.option? "config") (a.has "keep-original") (a.option? "test")
    (a.has "abort-on-invalid") (a.option? "out-dir") (a.has "dry-run")

/-- The names of the subcommands that can be described. -/
def subcommandNames : List Argument := ["convert".toList, "rewrite".toList, "help".toList]

/-- Reads the subcommand and its arguments. -/
def readSubcommand (name : Argument) (arguments : List Argument) : Except Stop Command :=
  if name = "convert".toList then readValues arguments
  else if name = "rewrite".toList then readFiles arguments
  else if name = "help".toList ∧ arguments.length ≤ 1 ∧ arguments.all subcommandNames.contains then
    throw .help
  else throw .usage

/-- Reads arguments, given the flags before the subcommand. -/
def readFrom (given : Arguments) : List Argument → Except Stop Command
  | [] => .error .usage
  | argument :: rest =>
    match Form.of argument with
    | .valuesOnly => .error .usage
    | .value => readSubcommand argument rest
    | .short letters => do readFrom (← given.addLetters topTable letters) rest
    | .long name none => do readFrom (← given.addPlain name (topTable.options.lookup name)) rest
    | .long _ (some _) => .error .usage

/-- Reads arguments. -/
def read (arguments : List Argument) : Except Stop Command := readFrom .empty arguments

/-- The paths that a command looks at. -/
def paths : Command → List Path
  | convertValues _ _ => []
  | compileFiles roots settingsFile _ _ _ outDir _ =>
    roots ++ [settingsFile.getD Settings.fileName] ++ outDir.toList

/-! ### Running -/

/-- What comes of a command. -/
structure Answer where
  exitCode : Nat
  output : List Char
  tree : Files.Tree

/-- The settings of a file. -/
def loadSettings? (tree : Files.Tree) (path : Path) : Option Settings :=
  match tree.resolve path with
  | .ok (location, _) =>
    match tree.read location with
    | .ok text => Settings.ofToml? text
    | .error _ => none
  | .error _ => none

/-- The settings of the file that is named, or else of the usual file if it is there. -/
def chooseSettings? (tree : Files.Tree) : Option Path → Option Settings
  | some path => loadSettings? tree path
  | none =>
    if tree.isFile Settings.fileName then loadSettings? tree Settings.fileName
    else some default

/-- Settings with what the arguments say about them. -/
def adjust (settings : Settings) (keepWritten : Bool) (test : Option (List Char))
    (abortOnInvalid : Bool) : Settings where
  enabled := settings.enabled
  keepWritten := keepWritten || settings.keepWritten
  test := test.getD settings.test
  onInvalid := if abortOnInvalid then .abort else settings.onInvalid

/-- The job of a command that compiles files, unless its settings cannot be used. -/
def job? (tree : Files.Tree) (settingsFile : Option Path) (keepWritten : Bool)
    (test : Option (List Char)) (abortOnInvalid : Bool) (outDir : Option Path) (dryRun : Bool) :
    Option Files.Job := do
  let settings ← chooseSettings? tree settingsFile
  Files.Job.ofSettings? (adjust settings keepWritten test abortOnInvalid) outDir dryRun

/-- Runs a command. -/
def run (tree : Files.Tree) : Command → Answer
  | convertValues policy values =>
    ⟨0, values.flatMap fun v => printConversion v (convert policy v), tree⟩
  | compileFiles roots settingsFile keepWritten test abortOnInvalid outDir dryRun =>
    match job? tree settingsFile keepWritten test abortOnInvalid outDir dryRun with
    | none => ⟨1, [], tree⟩
    | some job =>
      let (after, reports) := job.run roots tree
      ⟨if reports.any Files.Report.isFailure then 1 else 0,
        Files.Report.printAll dryRun reports, after⟩

/-- The text that tells the version. -/
def versionText : List Char := "m3d 0.1.0\n".toList

/-- The description of the command. -/
def helpText : List Char :=
  ("Converts CSS transform values to matrix3d()\n\n" ++
    "Usage: m3d [-v] convert [--abort-on-invalid] VALUES...\n" ++
    "       m3d [-v] rewrite [--config FILE] [--keep-original] [--test PATTERN]\n" ++
    "                        [--abort-on-invalid] [--out-dir DIRECTORY] [--dry-run] PATHS...\n" ++
    "       m3d --version\n").toList

/-- What comes of arguments. -/
def answer (tree : Files.Tree) (arguments : List Argument) : Answer :=
  match read arguments with
  | .ok command => command.run tree
  | .error .usage => ⟨2, [], tree⟩
  | .error .help => ⟨0, helpText, tree⟩
  | .error .version => ⟨0, versionText, tree⟩

end Command

end CssTransform
