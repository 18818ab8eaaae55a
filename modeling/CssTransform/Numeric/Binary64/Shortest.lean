import CssTransform.Numeric.Decimal

/-!
# The shortest decimal of a binary64 number

A finite number is printed as the decimal with the fewest digits that reads back to it. The search
goes down the grids of powers of ten, from one too coarse to hold any decimal that reads back, and
stops at the first grid that holds one.

On each grid only two decimals have to be tried, the neighbours of the exact value: if any decimal
of the grid reads back, one of these does, because rounding is monotone. When both do, the nearer
one is taken, and of two equally near ones the upper.

Grids are counted from the finest that is ever needed: grid `i` has steps of
`10 ^ i / 5 ^ 1074` units, so that grid `0` holds every finite number and a decimal exponent is
`i - 1074`.

## Main definitions

* `Binary64.ReadsBack` — a decimal of a grid is read as the given count of units
* `Binary64.onGrid` — the neighbour of a count on a grid that reads back to it
* `Binary64.Magnitude.shortest` — the decimal with the fewest digits
* `Binary64.plainText` — the text of a number, without an exponent
-/

namespace CssTransform

namespace Binary64

/-- The finest grid, in steps to the unit: each unit is `5 ^ 1074` steps of grid `0`. -/
def finestSteps : Nat := Nat.pow 5 1074

/-- The decimal with `q` steps of grid `i` is read as `n` units. -/
def ReadsBack (n i q : Nat) : Prop := roundUnits (q * Nat.pow 10 i) finestSteps = n

instance (n i q : Nat) : Decidable (ReadsBack n i q) := inferInstanceAs (Decidable (_ = _))

/-- The neighbour of `n` units on grid `i` that reads back to it: the nearer one if both do, and
the upper one if both are equally near. -/
def onGrid (n i : Nat) : Option Nat :=
  let step := Nat.pow 10 i
  let lower := n * finestSteps / step
  let remainder := n * finestSteps % step
  if ReadsBack n i (lower + 1) then
    if ReadsBack n i lower ∧ 2 * remainder < step then some lower else some (lower + 1)
  else if ReadsBack n i lower then
    some lower
  else
    none

/-- The first decimal that is found on a grid, from grid `i` downward, and the given one if that is
on grid `0`. -/
def firstFrom (found : Nat → Option Nat) (finest : Decimal) : Nat → Decimal
  | 0 => finest
  | i + 1 =>
    match found (i + 1) with
    | some q => ⟨q, (i + 1 : Nat) - 1074⟩
    | none => firstFrom found finest i

/-- The first decimal that reads back to `n` units, from grid `i` downward. -/
def shortestFrom (n i : Nat) : Decimal := firstFrom (onGrid n) ⟨n * finestSteps, -1074⟩ i

/-- A grid with steps of more than `4 * n` units, and not many more. `10 ^ 25` is above
`2 ^ 83`, so this exponent makes a power of ten out of any number of binary digits. -/
def coarseGrid (n : Nat) : Nat := ((n * finestSteps).log2 + 3) * 25 / 83 + 1

/-- The decimal with the fewest digits that reads back to a magnitude. -/
def Magnitude.shortest (m : Magnitude) : Decimal := shortestFrom m.units (coarseGrid m.units)

/-- The text of a magnitude. -/
def Magnitude.plainText (m : Magnitude) : List Char :=
  if m.units = 0 then ['0'] else m.shortest.plainText

/-- The sign in front of a negative number. -/
def signText (negative : Bool) : List Char := if negative then ['-'] else []

/-- The text of a number, without an exponent whatever its size. -/
def plainText : Binary64 → List Char
  | .nan => "NaN".toList
  | .infinite s => signText s ++ "inf".toList
  | .finite s m => signText s ++ m.plainText

end Binary64

end CssTransform
