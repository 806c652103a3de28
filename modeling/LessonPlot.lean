import LessonPlot.CommandLine.Help
import LessonPlot.CommandLine.Options
import LessonPlot.CommandLine.Request
import LessonPlot.CommandLine.Run
import LessonPlot.Configuration.Basic
import LessonPlot.Configuration.Issues
import LessonPlot.Configuration.Load
import LessonPlot.Configuration.Read
import LessonPlot.Configuration.Write
import LessonPlot.Control
import LessonPlot.Curve
import LessonPlot.Decimal.Basic
import LessonPlot.Decimal.CubeRoot
import LessonPlot.Decimal.Notation
import LessonPlot.Decimal.Numeral
import LessonPlot.Decimal.Shortest
import LessonPlot.Element
import LessonPlot.Evaluation.Columns
import LessonPlot.Evaluation.Meaning
import LessonPlot.Evaluation.Named
import LessonPlot.Evaluation.Registers
import LessonPlot.Expression.Basic
import LessonPlot.Expression.Build
import LessonPlot.Expression.Depth
import LessonPlot.Expression.Elementary
import LessonPlot.Expression.Error
import LessonPlot.Expression.Parse
import LessonPlot.Formula.Basic
import LessonPlot.Formula.Grouping
import LessonPlot.Formula.Nesting
import LessonPlot.Formula.Recognise
import LessonPlot.Formula.Token
import LessonPlot.Grid
import LessonPlot.Interval
import LessonPlot.Json.Basic
import LessonPlot.Json.Fault
import LessonPlot.Json.Read
import LessonPlot.Json.Scan
import LessonPlot.Json.Skip
import LessonPlot.Json.Write
import LessonPlot.Main
import LessonPlot.Proofs.Configuration.BareNumbers
import LessonPlot.Proofs.Configuration.Counts
import LessonPlot.Proofs.Configuration.CurveVariable
import LessonPlot.Proofs.Configuration.Decoding
import LessonPlot.Proofs.Configuration.Problems
import LessonPlot.Proofs.Configuration.Reading
import LessonPlot.Proofs.Configuration.Reload
import LessonPlot.Proofs.Configuration.Validation
import LessonPlot.Proofs.Control
import LessonPlot.Proofs.Decimal.Notation
import LessonPlot.Proofs.Evaluation.Bindings
import LessonPlot.Proofs.Evaluation.Demand
import LessonPlot.Proofs.Evaluation.Extremum
import LessonPlot.Proofs.Evaluation.Lanes
import LessonPlot.Proofs.Evaluation.Named
import LessonPlot.Proofs.Evaluation.Pool
import LessonPlot.Proofs.Evaluation.Refinement
import LessonPlot.Proofs.Evaluation.Totality
import LessonPlot.Proofs.Evaluation.Traversal
import LessonPlot.Proofs.Except
import LessonPlot.Proofs.Expression.BindableNames
import LessonPlot.Proofs.Expression.Depth
import LessonPlot.Proofs.Expression.FreeNames
import LessonPlot.Proofs.Expression.Literals
import LessonPlot.Proofs.Expression.Names
import LessonPlot.Proofs.Expression.Naturality
import LessonPlot.Proofs.Expression.Numerals
import LessonPlot.Proofs.Expression.ParseTree
import LessonPlot.Proofs.Expression.Paths
import LessonPlot.Proofs.Expression.ReadableLiterals
import LessonPlot.Proofs.Expression.Rename
import LessonPlot.Proofs.Expression.Slots
import LessonPlot.Proofs.Expression.Survey
import LessonPlot.Proofs.Expression.Verdict
import LessonPlot.Proofs.Float.Arithmetic
import LessonPlot.Proofs.Float.Comparison
import LessonPlot.Proofs.Float.Error
import LessonPlot.Proofs.Float.Nearest
import LessonPlot.Proofs.Float.Order
import LessonPlot.Proofs.Float.Packing
import LessonPlot.Proofs.Float.Reading
import LessonPlot.Proofs.Float.Rounding
import LessonPlot.Proofs.Float.Shortest
import LessonPlot.Proofs.Float.Values
import LessonPlot.Proofs.Formula.Activations
import LessonPlot.Proofs.Formula.Attempts
import LessonPlot.Proofs.Formula.Climbing
import LessonPlot.Proofs.Formula.Decision
import LessonPlot.Proofs.Formula.DepthLimit
import LessonPlot.Proofs.Formula.Enclosures
import LessonPlot.Proofs.Formula.Grammar
import LessonPlot.Proofs.Formula.Levels
import LessonPlot.Proofs.Formula.NestingBound
import LessonPlot.Proofs.Formula.NumeralLanguage
import LessonPlot.Proofs.Formula.PhraseDerivation
import LessonPlot.Proofs.Formula.PhraseMatching
import LessonPlot.Proofs.Formula.Precedence
import LessonPlot.Proofs.Formula.Progress
import LessonPlot.Proofs.Formula.Recognition
import LessonPlot.Proofs.Formula.Reports
import LessonPlot.Proofs.Formula.Scanning
import LessonPlot.Proofs.Formula.Strata
import LessonPlot.Proofs.Formula.Stratified
import LessonPlot.Proofs.Formula.TokenDerivation
import LessonPlot.Proofs.Formula.TokenMatching
import LessonPlot.Proofs.Formula.Tracing
import LessonPlot.Proofs.Formula.Viability
import LessonPlot.Proofs.Grid
import LessonPlot.Proofs.Interval
import LessonPlot.Proofs.Json.Documents
import LessonPlot.Proofs.Json.Tokens
import LessonPlot.Proofs.Playback.Elapsed
import LessonPlot.Proofs.Playback.Range
import LessonPlot.Proofs.Playback.Remainder
import LessonPlot.Proofs.Playback.Stepping
import LessonPlot.Proofs.Scene.Drawing
import LessonPlot.Proofs.Scene.Isolation
import LessonPlot.Proofs.Scene.Parameter
import LessonPlot.Proofs.Scene.Reference
import LessonPlot.Proofs.Scene.Sampling
import LessonPlot.Proofs.Scene.Totality
import LessonPlot.Proofs.Scope
import LessonPlot.Proofs.Text.Span
import LessonPlot.Sampler
import LessonPlot.Scalar
import LessonPlot.Scene.Assemble
import LessonPlot.Scene.Basic
import LessonPlot.Scene.Write
import LessonPlot.Scope
import LessonPlot.Text.Position
import LessonPlot.Text.Space
