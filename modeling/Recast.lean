import Recast.Assoc
import Recast.Calendar.Date
import Recast.Calendar.Pattern
import Recast.CommandLine
import Recast.Config
import Recast.Decimal.Layout
import Recast.Decimal.Reader
import Recast.Decimal.Shortest
import Recast.Engine
import Recast.Event
import Recast.Expansion
import Recast.Fields
import Recast.Json.Number
import Recast.Json.Printer
import Recast.Json.Reader
import Recast.Json.Skipper
import Recast.Json.Value
import Recast.Main
import Recast.Metrics
import Recast.Path
import Recast.Placeholder
import Recast.Program
import Recast.Proofs.AcceptedConfigs
import Recast.Proofs.Assembly
import Recast.Proofs.BackTicks
import Recast.Proofs.BalancedHoles
import Recast.Proofs.BoundNames
import Recast.Proofs.Caching
import Recast.Proofs.CalendarTime
import Recast.Proofs.CompilingAhead
import Recast.Proofs.Counting
import Recast.Proofs.DecimalText
import Recast.Proofs.EmbeddedHoles
import Recast.Proofs.EvalSteps
import Recast.Proofs.EventLines
import Recast.Proofs.ExposedTime
import Recast.Proofs.FailingWrites
import Recast.Proofs.FieldCopies
import Recast.Proofs.FieldOrder
import Recast.Proofs.History
import Recast.Proofs.HoleEnds
import Recast.Proofs.HoleParsing
import Recast.Proofs.HoleTokens
import Recast.Proofs.HoleValues
import Recast.Proofs.InnerText
import Recast.Proofs.InputLines
import Recast.Proofs.JsonGrammar
import Recast.Proofs.LibraryActions
import Recast.Proofs.LineByLine
import Recast.Proofs.LiteralText
import Recast.Proofs.MalformedLines
import Recast.Proofs.ModeAgreement
import Recast.Proofs.NamedFields
import Recast.Proofs.NestedParsing
import Recast.Proofs.NestedTokens
import Recast.Proofs.NumberGrammar
import Recast.Proofs.OnePass
import Recast.Proofs.Operations
import Recast.Proofs.PathNames
import Recast.Proofs.PercentCoding
import Recast.Proofs.PlaceholderGrammar
import Recast.Proofs.ProgramOutput
import Recast.Proofs.RawTexts
import Recast.Proofs.RemovedKeys
import Recast.Proofs.ScopeLayout
import Recast.Proofs.Separators
import Recast.Proofs.SharedCounters
import Recast.Proofs.SharedScope
import Recast.Proofs.SharedTemplates
import Recast.Proofs.ShownValues
import Recast.Proofs.SkippedValues
import Recast.Proofs.SortedKeys
import Recast.Proofs.Substitution
import Recast.Proofs.TagSegments
import Recast.Proofs.TextAroundHole
import Recast.Proofs.TokenMeanings
import Recast.Proofs.TokenTable
import Recast.Proofs.Utf8
import Recast.Proofs.ValueGrammar
import Recast.Proofs.WrittenEvents
import Recast.Proofs.WrittenValues
import Recast.Report
import Recast.Script.Arithmetic
import Recast.Script.Effect
import Recast.Script.Eval
import Recast.Script.Expr
import Recast.Script.Fault
import Recast.Script.Fold
import Recast.Script.Lexer
import Recast.Script.Library
import Recast.Script.Library.Blob
import Recast.Script.Library.Collection
import Recast.Script.Library.Method
import Recast.Script.Library.Number
import Recast.Script.Library.Text
import Recast.Script.Memory
import Recast.Script.Operator
import Recast.Script.Parser
import Recast.Script.Step
import Recast.Script.Token
import Recast.Script.Value
import Recast.Stream.Buffer
import Recast.Stream.Line
import Recast.Stream.Run
import Recast.Stream.Sink
import Recast.Tag
import Recast.Template.Basic
import Recast.Template.Hole
import Recast.Template.Pieces
import Recast.Text.Blank
import Recast.Text.CaseTable
import Recast.Text.LetterCase
import Recast.Text.Search
import Recast.Text.Utf8
import Recast.Url
import Recast.Yaml.Cursor
import Recast.Yaml.Node
import Recast.Yaml.Scalar
import Recast.Yaml.Token
import Recast.Yaml.Value
import Recast.Yaml.Writer
