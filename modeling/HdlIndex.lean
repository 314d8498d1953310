import HdlIndex.Bisection
import HdlIndex.Command.Arguments
import HdlIndex.Command.Completion
import HdlIndex.Command.Disk
import HdlIndex.Command.Failure
import HdlIndex.Command.Report
import HdlIndex.Command.Run
import HdlIndex.Diagnostic
import HdlIndex.Grammar.Basic
import HdlIndex.Grammar.Build
import HdlIndex.Grammar.Directive
import HdlIndex.Grammar.Listing
import HdlIndex.Grammar.Scan
import HdlIndex.Grammar.Shorthand
import HdlIndex.Grammar.Structural
import HdlIndex.Json.Basic
import HdlIndex.Json.Magnitude
import HdlIndex.Json.Printer
import HdlIndex.Json.Reader
import HdlIndex.LineIndex
import HdlIndex.Macro.Definition
import HdlIndex.Macro.Expansion
import HdlIndex.Macro.Store
import HdlIndex.Macro.Table
import HdlIndex.Main
import HdlIndex.Options
import HdlIndex.Outline
import HdlIndex.Outline.Cursor
import HdlIndex.Outline.DataType
import HdlIndex.Outline.Declaration
import HdlIndex.Outline.Item
import HdlIndex.Outline.Origin
import HdlIndex.Outline.Reading
import HdlIndex.Outline.Routine
import HdlIndex.Outline.Statement
import HdlIndex.Outline.Token
import HdlIndex.Path
import HdlIndex.Pattern.Basic
import HdlIndex.Pattern.CharSet
import HdlIndex.Pattern.Ends
import HdlIndex.Pattern.Escape
import HdlIndex.Pattern.Footprint
import HdlIndex.Pattern.Matcher
import HdlIndex.Pattern.Place
import HdlIndex.Pattern.Program
import HdlIndex.Pattern.Reader
import HdlIndex.Pattern.SetReader
import HdlIndex.Position
import HdlIndex.Preprocess.Cache
import HdlIndex.Preprocess.Item
import HdlIndex.Preprocess.Run
import HdlIndex.Preprocess.Stream
import HdlIndex.Session
import HdlIndex.Source
import HdlIndex.Symbol.Basic
import HdlIndex.Symbol.Encoding
import HdlIndex.Symbol.Kind
import HdlIndex.Symbol.Store
import HdlIndex.Symbol.Table
import HdlIndex.Symbol.Tree
import HdlIndex.Text.Category
import HdlIndex.Text.Class
import HdlIndex.Text.Fold
import HdlIndex.Text.Measure
import HdlIndex.Text.Quoted
import HdlIndex.Proofs.Preprocess.ChangeLog
import HdlIndex.Proofs.Preprocess.Conditional
import HdlIndex.Proofs.Symbol.Surroundings
import HdlIndex.Proofs.Symbol.Soundness
import HdlIndex.Proofs.Outline.Act
import HdlIndex.Proofs.Outline.InStep
import HdlIndex.Proofs.Outline.Rules
import HdlIndex.Proofs.Outline.Independence
import HdlIndex.Proofs.Pattern.Matches
import HdlIndex.Proofs.Pattern.Row
import HdlIndex.Proofs.Grammar.Tiling
import HdlIndex.Proofs.Grammar.Written
import HdlIndex.Proofs.Grammar.Contract
import HdlIndex.Proofs.Grammar.Built
import HdlIndex.Proofs.Preprocess.Branches
import HdlIndex.Proofs.Symbol.Distinct
import HdlIndex.Proofs.Symbol.Edits
import HdlIndex.Proofs.Symbol.Arrangement
import HdlIndex.Proofs.Symbol.Stability
import HdlIndex.Proofs.Symbol.Slots
import HdlIndex.Proofs.Symbol.Release
import HdlIndex.Proofs.Symbol.Reading
import HdlIndex.Proofs.Symbol.Links
import HdlIndex.Proofs.Symbol.Codec
import HdlIndex.Proofs.Steps
import HdlIndex.Proofs.Symbol.Canonical
import HdlIndex.Proofs.Outline.Restoration
import HdlIndex.Proofs.Outline.Storage
import HdlIndex.Proofs.Sources
import HdlIndex.Proofs.Path
import HdlIndex.Proofs.Preprocess.Remainder
import HdlIndex.Proofs.Preprocess.Course
import HdlIndex.Proofs.Preprocess.Resolution
import HdlIndex.Proofs.Preprocess.Provenance
import HdlIndex.Proofs.Preprocess.Contributors
import HdlIndex.Proofs.Preprocess.Agreement
import HdlIndex.Proofs.Preprocess.Replay
import HdlIndex.Proofs.Preprocess.Holdings
import HdlIndex.Proofs.Preprocess.Abreast
import HdlIndex.Proofs.Preprocess.History
import HdlIndex.Proofs.Preprocess.Execution
import HdlIndex.Proofs.Preprocess.Loads
import HdlIndex.Proofs.Preprocess.InProgress
import HdlIndex.Proofs.Grammar.Pieces
import HdlIndex.Proofs.Preprocess.Groups
import HdlIndex.Proofs.Preprocess.Spans
import HdlIndex.Proofs.Preprocess.Verbatim
import HdlIndex.Proofs.Outline.Identity
import HdlIndex.Proofs.Outline.Progress
import HdlIndex.Proofs.Outline.Scopes
import HdlIndex.Proofs.Position
import HdlIndex.Proofs.Preprocess.Plain
import HdlIndex.Proofs.Outline.Nesting
import HdlIndex.Proofs.Grammar.Snapshots
import HdlIndex.Proofs.Pattern.Framed
import HdlIndex.Proofs.Pattern.Whole
import HdlIndex.Proofs.Grammar.Coverage
import HdlIndex.Proofs.Grammar.Course
import HdlIndex.Proofs.Outline.Comments
import HdlIndex.Proofs.Macro.FixedPoint
import HdlIndex.Proofs.Macro.OneStep
import HdlIndex.Proofs.Macro.Limits
import HdlIndex.Proofs.Preprocess.Refusal
import HdlIndex.Proofs.Preprocess.Writing
import HdlIndex.Proofs.Preprocess.DefinitionLine
import HdlIndex.Proofs.Outline.Segments
import HdlIndex.Proofs.Outline.Forks
import HdlIndex.Proofs.Outline.Constructs
import HdlIndex.Proofs.Outline.Declarators
import HdlIndex.Proofs.Outline.Ports
import HdlIndex.Proofs.Lines
import HdlIndex.Proofs.LineIndex
import HdlIndex.Proofs.Preprocess.Reinclusion
import HdlIndex.Proofs.Pattern.Runs
import HdlIndex.Proofs.Grammar.Points
import HdlIndex.Proofs.Grammar.Enclosed
import HdlIndex.Proofs.Grammar.Opaque
import HdlIndex.Proofs.Grammar.Openings
import HdlIndex.Proofs.Outline.Layout
import HdlIndex.Proofs.Outline.Significant
import HdlIndex.Proofs.Spellings
import HdlIndex.Proofs.Macro.Table
