/-!
# Command-line arguments

An argument is a value, or it begins with a hyphen and is an option or a group of one-letter flags.
After `--` every argument is a value. An option takes the argument after it as its value, or the
text after an equals sign; a flag takes nothing. Neither may be given twice, and nothing that begins
with a hyphen is taken for a value, a hyphen alone excepted.

## Main definitions

* `Command.Arguments`, `Command.OptionTable`
* `Command.Arguments.read` — the arguments of one level of a command
-/

namespace CssTransform

namespace Command

/-- An argument as written. -/
abbrev Argument := List Char

/-- Why reading arguments stops. -/
inductive Stop where
  /-- The arguments are not in order. -/
  | usage
  /-- A description of the command is asked for. -/
  | help
  /-- The version is asked for. -/
  | version
deriving DecidableEq

/-- What a value may be. -/
inductive ValueKind where
  /-- Any text. -/
  | text
  /-- Any text but the empty one. -/
  | path
deriving DecidableEq

/-- Whether a text is a value of a kind. -/
def ValueKind.accepts : ValueKind → Argument → Bool
  | text, _ => true
  | path, value => !value.isEmpty

/-- What an option is. -/
inductive OptionKind where
  | flag
  | option (kind : ValueKind)
  | help
  | version
deriving DecidableEq

/-- The options of one level of a command, by their long names, and its values. -/
structure OptionTable where
  options : List (Argument × OptionKind)
  /-- The long names that letters stand for. -/
  letters : List (Char × Argument)
  values : ValueKind

/-- What an argument is by its form. -/
inductive Form where
  | valuesOnly
  | long (name : Argument) (attached : Option Argument)
  | short (letters : List Char)
  | value
deriving DecidableEq

/-- The form of an argument. -/
def Form.of : Argument → Form
  | ['-', '-'] => valuesOnly
  | '-' :: '-' :: text =>
    match text.dropWhile (· ≠ '=') with
    | [] => long text none
    | _ :: attached => long (text.takeWhile (· ≠ '=')) (some attached)
  | '-' :: c :: letters => short (c :: letters)
  | _ => value

/-- What has been given. -/
structure Arguments where
  flags : List Argument
  options : List (Argument × Argument)
  values : List Argument
deriving DecidableEq

namespace Arguments

/-- Nothing. -/
def empty : Arguments := ⟨[], [], []⟩

/-- Whether a flag is given. -/
def has (a : Arguments) (name : String) : Bool := a.flags.contains name.toList

/-- The value of an option. -/
def option? (a : Arguments) (name : String) : Option Argument := a.options.lookup name.toList

/-- One more flag. -/
def addFlag (a : Arguments) (name : Argument) : Except Stop Arguments :=
  if name ∈ a.flags then .error .usage else .ok { a with flags := name :: a.flags }

/-- One more option with its value. -/
def addOption (a : Arguments) (kind : ValueKind) (name value : Argument) :
    Except Stop Arguments :=
  if kind.accepts value ∧ (a.options.lookup name).isNone then
    .ok { a with options := (name, value) :: a.options }
  else .error .usage

/-- More values. -/
def addValues (a : Arguments) (kind : ValueKind) (values : List Argument) :
    Except Stop Arguments :=
  if values.all kind.accepts then .ok { a with values := a.values ++ values } else .error .usage

/-- An option without a value. -/
def addPlain (a : Arguments) (name : Argument) : Option OptionKind → Except Stop Arguments
  | some .flag => a.addFlag name
  | some .help => .error .help
  | some .version => .error .version
  | _ => .error .usage

/-- A group of one-letter flags. -/
def addLetters (table : OptionTable) (a : Arguments) (letters : List Char) :
    Except Stop Arguments :=
  letters.foldlM (fun a c =>
    match table.letters.lookup c with
    | none => .error .usage
    | some name => a.addPlain name (table.options.lookup name)) a

/-- Reads the arguments of a level, while an option may wait for its value. -/
def readFrom (table : OptionTable) :
    Option (Argument × ValueKind) → Arguments → List Argument → Except Stop Arguments
  | none, a, [] => .ok a
  | some _, _, [] => .error .usage
  | some (name, kind), a, argument :: rest =>
    match Form.of argument with
    | .value => do readFrom table none (← a.addOption kind name argument) rest
    | _ => .error .usage
  | none, a, argument :: rest =>
    match Form.of argument with
    | .valuesOnly => a.addValues table.values rest
    | .value => do readFrom table none (← a.addValues table.values [argument]) rest
    | .short letters => do readFrom table none (← a.addLetters table letters) rest
    | .long name attached =>
      match table.options.lookup name, attached with
      | some (.option kind), none => readFrom table (some (name, kind)) a rest
      | some (.option kind), some value => do
        readFrom table none (← a.addOption kind name value) rest
      | kind, none => do readFrom table none (← a.addPlain name kind) rest
      | _, some _ => .error .usage

/-- Reads the arguments of a level. -/
def read (table : OptionTable) (arguments : List Argument) : Except Stop Arguments :=
  readFrom table none empty arguments

end Arguments

end Command

end CssTransform
