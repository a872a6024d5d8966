import Isotherm.Colour.Heat
import Isotherm.Colour.Raster
import Isotherm.CommandLine.Arguments
import Isotherm.CommandLine.Help
import Isotherm.CommandLine.Run
import Isotherm.CommandLine.Setting
import Isotherm.Evaluation.Evaluate
import Isotherm.Evaluation.Residual
import Isotherm.Formula.Checked
import Isotherm.Formula.Expr
import Isotherm.Formula.Grammar
import Isotherm.Formula.Outline
import Isotherm.Formula.ParseError
import Isotherm.Formula.Printer
import Isotherm.Formula.Reader
import Isotherm.Formula.Simplify
import Isotherm.Formula.Token
import Isotherm.Function.Bessel
import Isotherm.Function.Elementary
import Isotherm.Function.ErrorFunction
import Isotherm.Function.Gamma
import Isotherm.Function.Named
import Isotherm.Main
import Isotherm.Number.Decimal
import Isotherm.Number.Exponent
import Isotherm.Number.Integral
import Isotherm.Number.Numeral
import Isotherm.Number.Remainder
import Isotherm.Number.Scalar
import Isotherm.Number.Scaled
import Isotherm.Number.Shortest
import Isotherm.Number.Style
import Isotherm.Picture
import Isotherm.Proofs.Colour.BucketOrder
import Isotherm.Proofs.Colour.Buckets
import Isotherm.Proofs.Colour.Palette
import Isotherm.Proofs.Colour.Pictures
import Isotherm.Proofs.Colour.Raster
import Isotherm.Proofs.Colour.ValidSettings
import Isotherm.Proofs.CommandLine.Escapes
import Isotherm.Proofs.CommandLine.Outcomes
import Isotherm.Proofs.Evaluation.Correspondence
import Isotherm.Proofs.Evaluation.LetterCase
import Isotherm.Proofs.Evaluation.ReadTracking
import Isotherm.Proofs.Evaluation.Simplified
import Isotherm.Proofs.Evaluation.Strictness
import Isotherm.Proofs.Evaluation.Understood
import Isotherm.Proofs.Formula.Acceptance
import Isotherm.Proofs.Formula.Calls
import Isotherm.Proofs.Formula.CanonicalText
import Isotherm.Proofs.Formula.Chains
import Isotherm.Proofs.Formula.Derivation
import Isotherm.Proofs.Formula.Language
import Isotherm.Proofs.Formula.LetterCase
import Isotherm.Proofs.Formula.Lexing
import Isotherm.Proofs.Formula.Literals
import Isotherm.Proofs.Formula.LongestMatch
import Isotherm.Proofs.Formula.Misplaced
import Isotherm.Proofs.Formula.NormalForm
import Isotherm.Proofs.Formula.NumberText
import Isotherm.Proofs.Formula.Overflow
import Isotherm.Proofs.Formula.Padding
import Isotherm.Proofs.Formula.Places
import Isotherm.Proofs.Formula.Precedence
import Isotherm.Proofs.Formula.Readers
import Isotherm.Proofs.Formula.Regrouping
import Isotherm.Proofs.Formula.Relocated
import Isotherm.Proofs.Formula.RoundTrip
import Isotherm.Proofs.Formula.Shrinking
import Isotherm.Proofs.Formula.SimplifiedText
import Isotherm.Proofs.Formula.Stalls
import Isotherm.Proofs.Function.ExponentAndRound
import Isotherm.Proofs.Function.Scaling
import Isotherm.Proofs.Number.Addition
import Isotherm.Proofs.Number.Bits
import Isotherm.Proofs.Number.Bounds
import Isotherm.Proofs.Number.FewestDigits
import Isotherm.Proofs.Number.Integers
import Isotherm.Proofs.Number.Multiplication
import Isotherm.Proofs.Number.Nearest
import Isotherm.Proofs.Number.Numerals
import Isotherm.Proofs.Number.Order
import Isotherm.Proofs.Number.Products
import Isotherm.Proofs.Number.RoundedOnce
import Isotherm.Proofs.Number.Rounding
import Isotherm.Proofs.Number.Shares
import Isotherm.Proofs.Number.Shortest
import Isotherm.Proofs.Number.Signed
import Isotherm.Proofs.Number.Thresholds
import Isotherm.Proofs.Number.Truncation
import Isotherm.Proofs.Number.Whole
import Isotherm.Proofs.Number.Written
import Isotherm.Proofs.Random.FirstAcceptable
import Isotherm.Proofs.Random.Generated
import Isotherm.Proofs.Random.Reread
import Isotherm.Proofs.Random.Writable
import Isotherm.Proofs.RenderConfig
import Isotherm.Proofs.Sampling.ExactThresholds
import Isotherm.Proofs.Sampling.Frames
import Isotherm.Proofs.Sampling.NearZero
import Isotherm.Proofs.Sampling.Reach
import Isotherm.Proofs.Sampling.Scan
import Isotherm.Proofs.Sampling.StaticFrames
import Isotherm.Proofs.Sampling.Times
import Isotherm.Proofs.Sampling.WholeGrid
import Isotherm.Proofs.Sampling.Writes
import Isotherm.Proofs.Symbolic.ExactResidual
import Isotherm.Proofs.Symbolic.Failures
import Isotherm.Proofs.Symbolic.Polynomial
import Isotherm.Proofs.Symbolic.Sound
import Isotherm.Random.Draws
import Isotherm.Random.Permuted
import Isotherm.Random.RandomEquation
import Isotherm.Random.Search
import Isotherm.Random.SeedSequence
import Isotherm.Refusal
import Isotherm.RenderConfig
import Isotherm.Sampling.Animation
import Isotherm.Sampling.Arrays
import Isotherm.Sampling.Assessment
import Isotherm.Sampling.Buffer
import Isotherm.Sampling.Frame
import Isotherm.Sampling.Rect
import Isotherm.Sampling.Sample
import Isotherm.Symbolic.Algebra
import Isotherm.Symbolic.Amount
import Isotherm.Symbolic.Arithmetic
import Isotherm.Symbolic.ComplexFloat
import Isotherm.Symbolic.Engine
import Isotherm.Symbolic.Function
import Isotherm.Symbolic.Latex
import Isotherm.Symbolic.Term
import Isotherm.Symbolic.Terms
import Isotherm.Symbolic.Value
import Isotherm.Text.Blank
import Isotherm.Text.Digit
import Isotherm.Text.Printable
import Isotherm.Text.Quoted
