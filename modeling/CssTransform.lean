import CssTransform.Main
import CssTransform.Numeric.Binary64.Bits
import CssTransform.Proofs.Composition.Finite
import CssTransform.Proofs.Composition.PointMap
import CssTransform.Proofs.Composition.Shape
import CssTransform.Proofs.Conversion.LetterCase
import CssTransform.Proofs.Conversion.Ordinary
import CssTransform.Proofs.Conversion.Text
import CssTransform.Proofs.Files.DryRun
import CssTransform.Proofs.Files.Frame
import CssTransform.Proofs.Files.Independent
import CssTransform.Proofs.Files.LastWrite
import CssTransform.Proofs.Matrix.ReadBack
import CssTransform.Proofs.Stylesheet.Comment
import CssTransform.Proofs.Stylesheet.Copy
import CssTransform.Proofs.Stylesheet.Local
import CssTransform.Proofs.Stylesheet.Policy
import CssTransform.Proofs.Stylesheet.Pushed
import CssTransform.Proofs.Stylesheet.Recognition
import CssTransform.Proofs.Stylesheet.WellFormed
import CssTransform.Proofs.Value.Juxtaposition
import CssTransform.Proofs.Value.LeadingNumber
