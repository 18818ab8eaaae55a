import CssTransform.Files.Path

/-!
# Reports

What happened to each file of a run, and how that is printed for a terminal that shows colours. A
value converted on its own is printed likewise.

## Main definitions

* `Files.Outcome`, `Files.Report`
* `Files.Report.printAll` — the lines of a run, with the counts at the end
* `printConversion` — the line of one value
-/

namespace CssTransform

/-- The decimal text of a count. -/
def countText (n : Nat) : List Char := Nat.toDigits 10 n

/-! ### Colours -/

/-- The colours of the output. -/
inductive Color where
  | green
  | darkGrey
  | red
  | cyan
  | yellow
deriving DecidableEq

namespace Color

/-- The number of a colour in the palette of 256. -/
def code : Color → Nat
  | darkGrey => 8
  | red => 9
  | green => 10
  | yellow => 11
  | cyan => 14

/-- The control sequence that begins a colour. -/
def begin (color : Color) : List Char := "\x1b[38;5;".toList ++ countText color.code ++ ['m']

/-- The control sequence that ends a colour. -/
def reset : List Char := "\x1b[0m".toList

/-- A text in a colour. -/
def paint (color : Color) (text : List Char) : List Char := color.begin ++ text ++ reset

end Color

/-- The line for one value: its conversion, or the value itself if it has none. -/
def printConversion (value : List Char) : Option (List Char) → List Char
  | some converted => converted ++ ['\n']
  | none => Color.yellow.paint (value ++ " (unchanged)".toList) ++ ['\n']

namespace Files

/-- What happened to a file. -/
inductive Outcome where
  /-- Something was converted. -/
  | changed (converted unchanged : Nat)
  /-- There was nothing to convert, and the file was not written. -/
  | untouched (unchanged : Nat)
  | failed (message : List Char)
deriving DecidableEq

/-- What happened to the file of a path. -/
structure Report where
  path : Path
  outcome : Outcome
deriving DecidableEq

namespace Report

/-- Whether the file could not be dealt with. -/
def isFailure (r : Report) : Bool :=
  match r.outcome with
  | .failed _ => true
  | _ => false

/-- Whether something in the file was converted. -/
def isChanged (r : Report) : Bool :=
  match r.outcome with
  | .changed _ _ => true
  | _ => false

/-- The width of the column that says what happened. -/
def statusWidth : Nat := 13

/-- The color of a line, what it says happened, and the detail in brackets. -/
def parts (dryRun : Bool) : Outcome → Color × List Char × List Char
  | .changed converted unchanged =>
    (.green, if dryRun then "would rewrite".toList else "rewritten".toList,
      countText converted ++ " converted, ".toList ++ countText unchanged ++ " unchanged".toList)
  | .untouched unchanged =>
    (.darkGrey, "untouched".toList, countText unchanged ++ " unchanged".toList)
  | .failed message => (.red, "failed".toList, message)

/-- The line for one file. -/
def print (dryRun : Bool) (r : Report) : List Char :=
  let (color, status, detail) := parts dryRun r.outcome
  color.paint (List.replicate (statusWidth - status.length) ' ' ++ status) ++ ' ' :: r.path ++
    " (".toList ++ detail ++ ")\n".toList

/-- The line that counts. Its color ends on the next line. -/
def printCounts (reports : List Report) : List Char :=
  let failed := reports.countP isFailure
  let color := if 0 < failed then Color.red else Color.cyan
  color.paint (countText reports.length ++ " file(s) scanned, ".toList ++
    countText (reports.countP isChanged) ++ " rewritten, ".toList ++ countText failed ++
    " failed\n".toList)

/-- The lines of a run. -/
def printAll (dryRun : Bool) (reports : List Report) : List Char :=
  reports.flatMap (print dryRun) ++ printCounts reports

end Report

end Files

end CssTransform
