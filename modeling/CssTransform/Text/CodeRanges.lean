/-!
# Ranges of code points

A set of characters is given by the ranges of code points that it holds, in increasing order. The
tables of this library are such lists, and so are the sets that patterns name.

## Which choice is load-bearing

Two ranges that meet are one range. A set then has one list, so that the number of its ranges, and
whether it holds a single character, can be read off. Surrogates are no characters: the range after
them follows the range before them without a gap.

## Main definitions

* `CodeRanges` — ranges of code points, both ends included
* `CodeRanges.contains` — whether a character lies in one of them
* `CodeRanges.union`, `complement`, `intersection`, `difference`, `symmetricDifference`
-/

namespace CssTransform

/-- Ranges of code points, both ends included. -/
abbrev CodeRanges := List (Nat × Nat)

namespace CodeRanges

/-- Whether a code point lies in one of the ranges. -/
def holds (ranges : CodeRanges) (code : Nat) : Bool :=
  ranges.any fun (first, last) => first ≤ code && code ≤ last

/-- Whether a character lies in one of the ranges. -/
def contains (ranges : CodeRanges) (c : Char) : Bool := ranges.holds c.toNat

@[simp] theorem contains_nil (c : Char) : contains [] c = false := rfl

@[simp] theorem contains_cons (first last : Nat) (rest : CodeRanges) (c : Char) :
    contains ((first, last) :: rest) c =
      ((first ≤ c.toNat && c.toNat ≤ last) || contains rest c) := rfl

/-- The characters from one to another. -/
def range (first last : Char) : CodeRanges := [(first.toNat, last.toNat)]

/-- The set of one character. -/
def single (c : Char) : CodeRanges := [(c.toNat, c.toNat)]

@[simp] theorem contains_single (c d : Char) : (single c).contains d = (c == d) := by
  rw [Bool.eq_iff_iff]
  simp only [single, contains_cons, contains_nil, Bool.or_false, Bool.and_eq_true,
    decide_eq_true_eq, beq_iff_eq]
  constructor
  · rintro ⟨h₁, h₂⟩
    exact Char.toNat_inj.1 (Nat.le_antisymm h₁ h₂)
  · rintro rfl
    exact ⟨Nat.le_refl _, Nat.le_refl _⟩

/-! ### Operations on sets -/

/-- The last code point. -/
def lastCode : Nat := 0x10ffff

/-- The code point after one. -/
def following (code : Nat) : Nat := if code = 0xd7ff then 0xe000 else code + 1

/-- The code point before one. -/
def preceding (code : Nat) : Nat := if code = 0xe000 then 0xd7ff else code - 1

/-- Ranges in the order of their first code points, those that meet made one. -/
def joined (ranges : CodeRanges) : CodeRanges :=
  (ranges.foldl (fun done (first, last) =>
    match done with
    | (low, high) :: before =>
      if first ≤ high + 1 then (low, max high last) :: before else (first, last) :: done
    | [] => [(first, last)]) []).reverse

/-- The set that some ranges in any order make up. -/
def ofList (ranges : List (Nat × Nat)) : CodeRanges :=
  joined (ranges.mergeSort fun a b => a.1 ≤ b.1)

/-- The characters of either set. -/
def union (a b : CodeRanges) : CodeRanges := joined (a.merge b fun x y => x.1 ≤ y.1)

/-- What is left out between ranges, from a code point on. -/
def gapsFrom (start : Nat) : CodeRanges → CodeRanges
  | [] => if start ≤ lastCode then [(start, lastCode)] else []
  | (first, last) :: rest =>
    if start < first then (start, preceding first) :: gapsFrom (following last) rest
    else gapsFrom (following last) rest

/-- The characters that are not in a set. -/
def complement (set : CodeRanges) : CodeRanges := gapsFrom 0 set

/-- The characters of both sets. -/
def intersection (a b : CodeRanges) : CodeRanges := (a.complement.union b.complement).complement

/-- The characters of the first set alone. -/
def difference (a b : CodeRanges) : CodeRanges := (a.complement.union b).complement

/-- The characters of one set alone, whichever. -/
def symmetricDifference (a b : CodeRanges) : CodeRanges :=
  (a.union b).difference (a.intersection b)

end CodeRanges

end CssTransform
