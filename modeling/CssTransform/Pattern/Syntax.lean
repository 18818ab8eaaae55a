import CssTransform.Pattern.Escape
import CssTransform.Pattern.Expression
import CssTransform.Pattern.NamedSet
import CssTransform.Text.CaseFolding
import CssTransform.Text.Letter

/-!
# The notation of patterns

A pattern is read character by character. Groups that are open are kept with what has been read of
each, and so are bracketed sets, which may nest.

## Which choice is load-bearing

A repetition needs something to repeat: the last part of the branch that is being read. There is
nothing to repeat at the beginning of a group or of a branch, and flags cannot be repeated.

Flags hold to the end of the group in which they stand, through all of its branches that follow.

## Main definitions

* `Pattern.Flags`
* `Pattern.bracketed?` — a bracketed set
* `Expression.ofText?` — the expression that a text is
-/

namespace CssTransform

namespace Pattern

/-- How characters and line ends are taken. -/
structure Flags where
  ignoreCase : Bool
  /-- `^` and `$` hold at the ends of lines. -/
  byLine : Bool
  /-- `.` stands for line feeds too. -/
  anyChar : Bool
  /-- Repetitions prefer more times unless they are marked. -/
  greedy : Bool
deriving DecidableEq

/-! ### Bracketed sets -/

/-- An operation between two sets. -/
inductive SetOperation where
  | intersection
  | difference
  | symmetricDifference

/-- The result of an operation. -/
def SetOperation.apply : SetOperation → CodeRanges → CodeRanges → CodeRanges
  | intersection, a, b => a.intersection b
  | difference, a, b => a.difference b
  | symmetricDifference, a, b => a.symmetricDifference b

/-- A set inside brackets, and how deeply nested it was written. -/
structure Nested where
  set : CodeRanges
  depth : Nat

/-- A bracketed set that is still open. -/
structure OpenSet where
  negated : Bool
  /-- The left side of an operation that waits for its right side. -/
  pending : Option (SetOperation × Nested)
  /-- What has been read since, last first. -/
  members : List Nested

namespace OpenSet

/-- A set without regard to case, if that is asked for. -/
def fold (ignoreCase : Bool) (set : CodeRanges) : CodeRanges :=
  if ignoreCase then set.anyCase else set

/-- One more member. -/
def add (s : OpenSet) (set : CodeRanges) (depth : Nat) : OpenSet :=
  { s with members := ⟨set, depth⟩ :: s.members }

/-- The union of the members, which is one deeper than they are unless there is one at most. -/
def union (s : OpenSet) : Nested :=
  let depth := s.members.foldl (fun depth member => max depth member.depth) 0
  ⟨.ofList (s.members.flatMap Nested.set), if s.members.length < 2 then depth else depth + 1⟩

/-- What has been read, with the waiting operation done. -/
def value (ignoreCase : Bool) (s : OpenSet) : Nested :=
  match s.pending with
  | none => s.union
  | some (operation, left) =>
    let right := s.union
    ⟨operation.apply (fold ignoreCase left.set) (fold ignoreCase right.set),
      max left.depth right.depth + 1⟩

/-- An operation, of which the left side has been read. -/
def operate (ignoreCase : Bool) (s : OpenSet) (operation : SetOperation) : OpenSet :=
  { s with pending := some (operation, s.value ignoreCase), members := [] }

/-- The set, at its closing bracket. -/
def close (ignoreCase : Bool) (s : OpenSet) : Nested :=
  let value := s.value ignoreCase
  let set := fold ignoreCase value.set
  ⟨if s.negated then set.complement else set, value.depth + 1⟩

end OpenSet

/-- The start of a bracketed set, after its bracket. Hyphens at the start stand for themselves, and
so does a closing bracket if it comes first. -/
def openSet (text : List Char) : OpenSet × List Char :=
  let (negated, text) := match text with
    | '^' :: rest => (true, rest)
    | text => (false, text)
  let hyphens := text.takeWhile (· = '-')
  let text := text.dropWhile (· = '-')
  match hyphens, text with
  | [], ']' :: rest => (⟨negated, none, [⟨.single ']', 0⟩]⟩, rest)
  | _, text => (⟨negated, none, hyphens.map fun c => ⟨.single c, 0⟩⟩, text)

/-- A character or an escape inside a bracketed set. -/
def member? : List Char → Option (Escape × List Char)
  | '\\' :: rest => escape? rest
  | c :: rest => some (.literal c, rest)
  | [] => none

/-- The set that stands for a member on its own. -/
def Escape.set? : Escape → Option CodeRanges
  | literal c => some (.single c)
  | set s => some s
  | condition _ => none

/-- A member of a bracketed set, or a range between two. -/
def memberOrRange? (text : List Char) : Option (CodeRanges × List Char) := do
  let (first, rest) ← member? text
  match rest with
  | '-' :: c :: after =>
    if c = ']' ∨ c = '-' then some (← first.set?, rest)
    else
      let (last, after) ← member? (c :: after)
      match first, last with
      | .literal a, .literal b => if a ≤ b then some (.range a b, after) else none
      | _, _ => none
  | ['-'] => none
  | rest => some (← first.set?, rest)

/-- A named set of ASCII characters inside a bracketed set, after its first bracket. -/
def namedSet? : List Char → Option (CodeRanges × List Char)
  | ':' :: rest =>
    let (negated, rest) := match rest with
      | '^' :: rest => (true, rest)
      | rest => (false, rest)
    match rest.dropWhile (· ≠ ':') with
    | ':' :: ']' :: after =>
      (CodeRanges.ofAsciiName? (String.ofList (rest.takeWhile (· ≠ ':')))).map fun set =>
        (if negated then set.complement else set, after)
    | _ => none
  | _ => none

/-- Reads a bracketed set to its end, given the set being read and those around it. -/
def setFrom? (ignoreCase : Bool) :
    Nat → OpenSet → List OpenSet → List Char → Option (Nested × List Char)
  | 0, _, _, _ => none
  | bound + 1, s, around, text =>
    match text with
    | [] => none
    | '[' :: rest =>
      match namedSet? rest with
      | some (set, after) => setFrom? ignoreCase bound (s.add set 0) around after
      | none =>
        let (inner, after) := openSet rest
        setFrom? ignoreCase bound inner (s :: around) after
    | ']' :: rest =>
      match around with
      | [] => some (s.close ignoreCase, rest)
      | outer :: around =>
        let inner := s.close ignoreCase
        setFrom? ignoreCase bound (outer.add inner.set inner.depth) around rest
    | '&' :: '&' :: rest =>
      setFrom? ignoreCase bound (s.operate ignoreCase .intersection) around rest
    | '-' :: '-' :: rest =>
      setFrom? ignoreCase bound (s.operate ignoreCase .difference) around rest
    | '~' :: '~' :: rest =>
      setFrom? ignoreCase bound (s.operate ignoreCase .symmetricDifference) around rest
    | text =>
      match memberOrRange? text with
      | some (set, rest) => setFrom? ignoreCase bound (s.add set 0) around rest
      | none => none

/-- A bracketed set, after its bracket. -/
def bracketed? (ignoreCase : Bool) (text : List Char) : Option (Nested × List Char) :=
  let (s, rest) := openSet text
  setFrom? ignoreCase (text.length + 1) s [] rest

/-! ### Repetitions -/

/-- The greatest number that a repetition may name. -/
def countLimit : Nat := 4294967296

/-- A number of times, with blanks around it. -/
def count? (text : List Char) : Option (Nat × List Char) :=
  let text := text.dropWhile Text.isBlank
  let digits := text.takeWhile Char.isDigit
  let n := Nat.ofDigitChars 10 digits 0
  if digits ≠ [] ∧ n < countLimit then
    some (n, (text.dropWhile Char.isDigit).dropWhile Text.isBlank)
  else none

/-- The least and greatest number of times, after the brace. -/
def counts? (text : List Char) : Option ((Nat × Option Nat) × List Char) := do
  let (least, rest) ← count? text
  match rest with
  | '\x7d' :: rest => some ((least, some least), rest)
  | ',' :: '\x7d' :: rest => some ((least, none), rest)
  | ',' :: rest =>
    let (greatest, rest) ← count? rest
    match rest with
    | '\x7d' :: rest => if least ≤ greatest then some ((least, some greatest), rest) else none
    | _ => none
  | _ => none

/-- Whether a repetition is marked as preferring other times than the flags say, and the text after
the mark. -/
def mark : List Char → Bool × List Char
  | '?' :: rest => (true, rest)
  | rest => (false, rest)

/-! ### Groups -/

/-- A character that may begin the name of a group. -/
def isGroupNameStart (c : Char) : Bool :=
  c == '_' || Text.isLetter c

/-- A character that may stand in the name of a group. -/
def isGroupNameChar (c : Char) : Bool :=
  c == '_' || c == '.' || c == '[' || c == ']' || Text.isLetter c || Text.isNumber c

/-- The name of a group up to its bracket, which no group before may have. -/
def groupName? (names : List (List Char)) (text : List Char) : Option (List Char × List Char) :=
  match text.takeWhile (· ≠ '>'), text.dropWhile (· ≠ '>') with
  | c :: name, _ :: rest =>
    if isGroupNameStart c ∧ name.all isGroupNameChar ∧ names.contains (c :: name) = false then
      some (c :: name, rest)
    else none
  | _, _ => none

/-- A flag set or cleared. -/
def Flags.set? (flags : Flags) (c : Char) (value : Bool) : Option Flags :=
  match c with
  | 'i' => some { flags with ignoreCase := value }
  | 'm' => some { flags with byLine := value }
  | 's' => some { flags with anyChar := value }
  | 'U' => some { flags with greedy := !value }
  | 'u' => if value then some flags else none
  | _ => none

/-- Flags up to the colon or bracket after them, given those named before and whether they are
being cleared. -/
def flagsFrom? : List Char → Bool → Flags → List Char → Option (Flags × List Char)
  | _, _, _, [] => none
  | seen, clear, flags, c :: rest =>
    if c = ':' ∨ c = ')' then
      if seen.head? = some '-' then none else some (flags, c :: rest)
    else if c ∈ seen then none
    else if c = '-' then flagsFrom? (c :: seen) true flags rest
    else do flagsFrom? (c :: seen) clear (← flags.set? c (!clear)) rest

/-- What an opening bracket begins. -/
inductive Opening where
  | group (captures : Bool) (names : List (List Char)) (flags : Flags)
  | flags (flags : Flags)

/-- What an opening bracket begins, after the bracket. -/
def opening? (names : List (List Char)) (flags : Flags) :
    List Char → Option (Opening × List Char)
  | '?' :: 'P' :: '<' :: rest => do
    let (name, rest) ← groupName? names rest
    some (.group true (name :: names) flags, rest)
  | '?' :: '<' :: rest => do
    let (name, rest) ← groupName? names rest
    some (.group true (name :: names) flags, rest)
  | '?' :: ')' :: _ => none
  | '?' :: rest => do
    let (inner, rest) ← flagsFrom? [] false flags rest
    match rest with
    | ':' :: rest => some (.group false names inner, rest)
    | _ :: rest => some (.flags inner, rest)
    | [] => none
  | rest => some (.group true names flags, rest)

/-! ### Expressions -/

/-- A group that is still open, or the whole expression. -/
structure OpenGroup where
  captures : Bool
  flags : Flags
  /-- The branches that are complete, last first. -/
  branches : List Expression
  /-- The parts of the current branch, last first. -/
  parts : List Expression

namespace OpenGroup

/-- At the beginning of a group. -/
def start (captures : Bool) (flags : Flags) : OpenGroup := ⟨captures, flags, [], []⟩

/-- The current branch. -/
def branch (g : OpenGroup) : Expression := .ofParts g.parts.reverse

/-- One more part. -/
def add (g : OpenGroup) (e : Expression) : OpenGroup := { g with parts := e :: g.parts }

/-- Another branch. -/
def alternate (g : OpenGroup) : OpenGroup :=
  { g with branches := g.branch :: g.branches, parts := [] }

/-- Other flags from here on. -/
def setFlags (g : OpenGroup) (flags : Flags) : OpenGroup := { g.add .empty with flags := flags }

/-- What is in the group, at its end. -/
def content (g : OpenGroup) : Expression := .ofBranches (g.branch :: g.branches).reverse

/-- The last part repeated, and the text after the mark of the repetition. -/
def repeat? (g : OpenGroup) (least : Nat) (greatest : Option Nat) (rest : List Char) :
    Option (OpenGroup × List Char) :=
  match g.parts with
  | [] => none
  | .empty :: _ => none
  | e :: parts =>
    let (marked, rest) := mark rest
    some ({ g with parts := .repeated e least greatest (g.flags.greedy != marked) :: parts }, rest)

/-- A part that stands for one character. -/
def literal (g : OpenGroup) (c : Char) : OpenGroup :=
  g.add (.oneOf (OpenSet.fold g.flags.ignoreCase (.single c)) 0)

/-- A part that is an escape. -/
def escape (g : OpenGroup) : Escape → OpenGroup
  | .literal c => g.literal c
  | .set s => g.add (.oneOf s 0)
  | .condition c => g.add (.condition c)

end OpenGroup

/-- How far a pattern has been read. -/
structure Reading where
  group : OpenGroup
  /-- The groups around it, innermost first. -/
  around : List OpenGroup
  /-- The names of groups so far. -/
  names : List (List Char)

namespace Reading

/-- A reading with its innermost group changed. -/
def inGroup (r : Reading) (group : OpenGroup) (rest : List Char) : Option (Reading × List Char) :=
  some ({ r with group := group }, rest)

/-- A reading with the last part repeated. -/
def repeat? (r : Reading) (least : Nat) (greatest : Option Nat) (rest : List Char) :
    Option (Reading × List Char) := do
  let (group, rest) ← r.group.repeat? least greatest rest
  r.inGroup group rest

/-- One part of a pattern. -/
def step? (r : Reading) (c : Char) (rest : List Char) : Option (Reading × List Char) :=
  let g := r.group
  match c with
  | '(' => do
    let (opening, rest) ← opening? r.names g.flags rest
    match opening with
    | .group captures names flags => some (⟨.start captures flags, g :: r.around, names⟩, rest)
    | .flags flags => r.inGroup (g.setFlags flags) rest
  | ')' =>
    match r.around with
    | [] => none
    | outer :: around => some (⟨outer.add (.group g.captures g.content), around, r.names⟩, rest)
  | '|' => r.inGroup g.alternate rest
  | '[' => do
    let (nested, rest) ← bracketed? g.flags.ignoreCase rest
    r.inGroup (g.add (.oneOf nested.set nested.depth)) rest
  | '*' => r.repeat? 0 none rest
  | '+' => r.repeat? 1 none rest
  | '?' => r.repeat? 0 (some 1) rest
  | '\x7b' => do
    let ((least, greatest), rest) ← counts? rest
    r.repeat? least greatest rest
  | '.' =>
    let excepted : CodeRanges := if g.flags.anyChar then [] else .single '\n'
    r.inGroup (g.add (.oneOf excepted.complement 0)) rest
  | '^' => r.inGroup (g.add (.condition (if g.flags.byLine then .lineStart else .textStart))) rest
  | '$' => r.inGroup (g.add (.condition (if g.flags.byLine then .lineEnd else .textEnd))) rest
  | '\\' => do
    let (escape, rest) ← escape? rest
    r.inGroup (g.escape escape) rest
  | c => r.inGroup (g.literal c) rest

end Reading

/-- Reads a pattern to its end. Every part takes a character, so that the length of the text is
enough of a bound. -/
def readFrom? : Nat → Reading → List Char → Option Expression
  | _, r, [] => if r.around.isEmpty then some r.group.content else none
  | 0, _, _ => none
  | bound + 1, r, c :: rest => do
    let (next, rest) ← r.step? c rest
    readFrom? bound next rest

/-- The flags at the beginning of a pattern. -/
def noFlags : Flags := ⟨false, false, false, true⟩

end Pattern

/-- The expression that a text is. -/
def Expression.ofText? (text : List Char) : Option Expression :=
  Pattern.readFrom? text.length ⟨.start false Pattern.noFlags, [], []⟩ text

end CssTransform
