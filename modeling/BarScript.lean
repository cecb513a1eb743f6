import BarScript.Arith
import BarScript.Arith.Double
import BarScript.Arith.Powers
import BarScript.Arith.Root
import BarScript.Assoc
import BarScript.Calendar.Date
import BarScript.Calendar.Instant
import BarScript.Command.Arguments
import BarScript.Command.Execute
import BarScript.Command.Line
import BarScript.Command.Transcript
import BarScript.Config.Ini
import BarScript.Config.Settings
import BarScript.Csv.Record
import BarScript.Data.CloseTimes
import BarScript.Data.Folder
import BarScript.Data.Memory
import BarScript.Data.Request
import BarScript.Data.Table
import BarScript.Decimal.Binary
import BarScript.Decimal.Literal
import BarScript.Decimal.Notation
import BarScript.Decimal.Reading
import BarScript.Decimal.Shortest
import BarScript.Diagnostic
import BarScript.Failure
import BarScript.Files
import BarScript.Files.Tree
import BarScript.Indicator.Anchored
import BarScript.Indicator.Cache
import BarScript.Indicator.Difference
import BarScript.Indicator.Dispersion
import BarScript.Indicator.Extreme
import BarScript.Indicator.Kind
import BarScript.Indicator.Mean
import BarScript.Indicator.Regression
import BarScript.Indicator.Smoothed
import BarScript.Indicator.Streaming
import BarScript.Indicator.Strength
import BarScript.Indicator.Supertrend
import BarScript.Indicator.TrueRange
import BarScript.Indicator.Weighted
import BarScript.Indicator.Window
import BarScript.Main
import BarScript.Market
import BarScript.Market.Bar
import BarScript.Market.Price
import BarScript.Output.Color
import BarScript.Output.Sinks
import BarScript.Proofs.Allocation
import BarScript.Proofs.AnchoredMean
import BarScript.Proofs.Arguments
import BarScript.Proofs.Averages
import BarScript.Proofs.Batch
import BarScript.Proofs.Between
import BarScript.Proofs.Blame
import BarScript.Proofs.Blanks
import BarScript.Proofs.CacheEntry
import BarScript.Proofs.CacheProtocol
import BarScript.Proofs.Calls
import BarScript.Proofs.Causality
import BarScript.Proofs.Coherence
import BarScript.Proofs.Columns
import BarScript.Proofs.Completion
import BarScript.Proofs.Computed
import BarScript.Proofs.Concatenation
import BarScript.Proofs.Consumption
import BarScript.Proofs.Course
import BarScript.Proofs.DoubleOrder
import BarScript.Proofs.DrawHistory
import BarScript.Proofs.Effect
import BarScript.Proofs.Ending
import BarScript.Proofs.ErrorPosition
import BarScript.Proofs.Exact
import BarScript.Proofs.Feeding
import BarScript.Proofs.Fetching
import BarScript.Proofs.Following
import BarScript.Proofs.Gaps
import BarScript.Proofs.GrammarPlaces
import BarScript.Proofs.Grid
import BarScript.Proofs.Growth
import BarScript.Proofs.HexColor
import BarScript.Proofs.History
import BarScript.Proofs.HoistedRun
import BarScript.Proofs.Hoisting
import BarScript.Proofs.InRange
import BarScript.Proofs.Increment
import BarScript.Proofs.Initialisers
import BarScript.Proofs.InstantRange
import BarScript.Proofs.Layout
import BarScript.Proofs.LeastSquares
import BarScript.Proofs.Leaves
import BarScript.Proofs.Ledger
import BarScript.Proofs.Levels
import BarScript.Proofs.Lexing
import BarScript.Proofs.LineEnd
import BarScript.Proofs.Live
import BarScript.Proofs.Lockstep
import BarScript.Proofs.Lookback
import BarScript.Proofs.Loop
import BarScript.Proofs.Machine
import BarScript.Proofs.Marks
import BarScript.Proofs.Matched
import BarScript.Proofs.MeanCalls
import BarScript.Proofs.MeasuredCall
import BarScript.Proofs.Messages
import BarScript.Proofs.Mirroring
import BarScript.Proofs.Moving
import BarScript.Proofs.MovingStatements
import BarScript.Proofs.NamedArgument
import BarScript.Proofs.NamedCall
import BarScript.Proofs.NamedStatement
import BarScript.Proofs.Nesting
import BarScript.Proofs.NewestFirst
import BarScript.Proofs.Offsets
import BarScript.Proofs.Operators
import BarScript.Proofs.OrderStatistics
import BarScript.Proofs.Overriding
import BarScript.Proofs.Passing
import BarScript.Proofs.Placement
import BarScript.Proofs.Policies
import BarScript.Proofs.ReadBack
import BarScript.Proofs.Reading
import BarScript.Proofs.Relocation
import BarScript.Proofs.Renaming
import BarScript.Proofs.Rendering
import BarScript.Proofs.Resolution
import BarScript.Proofs.Respelled
import BarScript.Proofs.Respelling
import BarScript.Proofs.Retelling
import BarScript.Proofs.Retold
import BarScript.Proofs.RoundTrip
import BarScript.Proofs.Rows
import BarScript.Proofs.RunningMean
import BarScript.Proofs.Seats
import BarScript.Proofs.Session
import BarScript.Proofs.Shape
import BarScript.Proofs.Sinks
import BarScript.Proofs.Slots
import BarScript.Proofs.Spots
import BarScript.Proofs.Standing
import BarScript.Proofs.StatementPlaces
import BarScript.Proofs.Stopped
import BarScript.Proofs.Succession
import BarScript.Proofs.TableLayout
import BarScript.Proofs.Tiling
import BarScript.Proofs.Trace
import BarScript.Proofs.Trailing
import BarScript.Proofs.Transparency
import BarScript.Proofs.TrendGap
import BarScript.Proofs.TrendLine
import BarScript.Proofs.Unavailable
import BarScript.Proofs.Uncached
import BarScript.Proofs.Variable
import BarScript.Proofs.View
import BarScript.Proofs.Visit
import BarScript.Proofs.WarmUp
import BarScript.Proofs.WarmupRows
import BarScript.Proofs.Watch
import BarScript.Proofs.Wilder
import BarScript.Run.Context
import BarScript.Run.Engine
import BarScript.Run.Precision
import BarScript.Run.Results
import BarScript.Run.Runner
import BarScript.Run.Store
import BarScript.Run.Warmup
import BarScript.Script.Arguments
import BarScript.Script.Compile
import BarScript.Script.Cursor
import BarScript.Script.Evaluate
import BarScript.Script.Grammar
import BarScript.Script.Parser
import BarScript.Script.Printer
import BarScript.Script.Program
import BarScript.Script.Resolve
import BarScript.Script.ResolveDrawing
import BarScript.Script.ResolveError
import BarScript.Script.Study
import BarScript.Script.SyntaxError
import BarScript.Script.Token
import BarScript.Script.Tree
import BarScript.Series
import BarScript.Technical
import BarScript.Text.Blank
import BarScript.Text.Bytes
import BarScript.Text.Cased
import BarScript.Text.Letter
import BarScript.Text.Lines
import BarScript.Text.Lowercase
import BarScript.Text.Numeral
