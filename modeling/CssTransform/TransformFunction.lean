/-!
# The transform functions

The functions that a `transform` value may call and that have a matrix. Names are compared without
regard to the case of ASCII letters, and `rotate` is another name of `rotateZ`.

## Main definitions

* `TransformFunction` — the seventeen functions
* `TransformFunction.name` — the canonical spelling
* `TransformFunction.ofName?` — the function of a name, if it has one

## Main results

* `TransformFunction.ofName?_name` — a function is found under its canonical spelling
-/

namespace CssTransform

/-- A function with a matrix. -/
inductive TransformFunction where
  | translateX
  | translateY
  | translateZ
  | translate
  | translate3d
  | scaleX
  | scaleY
  | scaleZ
  | scale
  | scale3d
  | rotateX
  | rotateY
  | rotateZ
  | skewX
  | skewY
  | matrix
  | matrix3d
deriving DecidableEq, Repr

namespace TransformFunction

/-- The canonical spelling. -/
def name : TransformFunction → List Char
  | translateX => "translateX".toList
  | translateY => "translateY".toList
  | translateZ => "translateZ".toList
  | translate => "translate".toList
  | translate3d => "translate3d".toList
  | scaleX => "scaleX".toList
  | scaleY => "scaleY".toList
  | scaleZ => "scaleZ".toList
  | scale => "scale".toList
  | scale3d => "scale3d".toList
  | rotateX => "rotateX".toList
  | rotateY => "rotateY".toList
  | rotateZ => "rotateZ".toList
  | skewX => "skewX".toList
  | skewY => "skewY".toList
  | matrix => "matrix".toList
  | matrix3d => "matrix3d".toList

/-- All functions. -/
def all : List TransformFunction :=
  [translateX, translateY, translateZ, translate, translate3d, scaleX, scaleY, scaleZ, scale,
    scale3d, rotateX, rotateY, rotateZ, skewX, skewY, matrix, matrix3d]

/-- A text with its ASCII letters in lower case. -/
def foldCase (text : List Char) : List Char := text.map Char.toLower

/-- The second name of `rotateZ`. -/
def rotateName : List Char := "rotate".toList

/-- The function that a name stands for. -/
def ofName? (text : List Char) : Option TransformFunction :=
  if foldCase text = rotateName then
    some rotateZ
  else
    all.find? fun f => foldCase f.name = foldCase text

theorem ofName?_name (f : TransformFunction) : ofName? f.name = some f := by
  cases f <;> decide

theorem ofName?_congr {s t : List Char} (h : foldCase s = foldCase t) :
    ofName? s = ofName? t := by
  unfold ofName?
  rw [h]

/-- Whether the matrix of the function comes from an angle. -/
def isAngular : TransformFunction → Bool
  | rotateX | rotateY | rotateZ | skewX | skewY => true
  | _ => false

end TransformFunction

end CssTransform
