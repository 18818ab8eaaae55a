import CssTransform.Composition

/-!
# Settings

What can be chosen about the compilation of style sheets. Only the policy for invalid calls bears on
the matrices.
-/

namespace CssTransform

/-- The choices that steer it. -/
structure Settings where
  /-- Compile at all. -/
  enabled : Bool
  /-- Keep each declaration and add the converted one after it. -/
  keepWritten : Bool
  /-- The pattern that the name of a file has to match. -/
  test : List Char
  onInvalid : InvalidCallPolicy
deriving DecidableEq

namespace Settings

/-- The pattern for names that end in `.css`. -/
def defaultTest : List Char := "\\.css$".toList

instance : Inhabited Settings := ⟨true, false, defaultTest, .skip⟩

end Settings

end CssTransform
