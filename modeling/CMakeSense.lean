import CMakeSense.Catalog.Command
import CMakeSense.Catalog.Language
import CMakeSense.Catalog.Parameter
import CMakeSense.Catalog.Property
import CMakeSense.Catalog.Signature
import CMakeSense.Catalog.Subcommand
import CMakeSense.Catalog.Variable
import CMakeSense.CommandLine.Flag
import CMakeSense.CommandLine.Position
import CMakeSense.CommandLine.Run
import CMakeSense.CommandLine.Verb
import CMakeSense.Editor.Abilities
import CMakeSense.Editor.Address
import CMakeSense.Editor.Message
import CMakeSense.Editor.Params
import CMakeSense.Editor.Reply
import CMakeSense.Editor.Server
import CMakeSense.Editor.Shape
import CMakeSense.Editor.Uri
import CMakeSense.FileTree.Basic
import CMakeSense.FileTree.Listing
import CMakeSense.Main
import CMakeSense.Proofs.Catalog.Bisection
import CMakeSense.Proofs.Catalog.Notation
import CMakeSense.Proofs.FileTree.Following
import CMakeSense.Proofs.FileTree.Names
import CMakeSense.Proofs.FileTree.Times
import CMakeSense.Proofs.FileTree.Visiting
import CMakeSense.Proofs.Query.CandidateHistory
import CMakeSense.Proofs.Query.Enclosing
import CMakeSense.Proofs.Query.HoverText
import CMakeSense.Proofs.Query.LineEnd
import CMakeSense.Proofs.Query.ObjectSlot
import CMakeSense.Proofs.Query.OpenCall
import CMakeSense.Proofs.Query.Place
import CMakeSense.Proofs.Query.PropertyPairs
import CMakeSense.Proofs.Query.Request
import CMakeSense.Proofs.Query.Tip
import CMakeSense.Proofs.Query.TipSpans
import CMakeSense.Proofs.Query.Typing
import CMakeSense.Proofs.Report.Records
import CMakeSense.Proofs.Report.References
import CMakeSense.Proofs.Report.TokenDump
import CMakeSense.Proofs.Script.ArgumentText
import CMakeSense.Proofs.Script.BlankArgument
import CMakeSense.Proofs.Script.DefiningTokens
import CMakeSense.Proofs.Script.Heading
import CMakeSense.Proofs.Script.Layout
import CMakeSense.Proofs.Script.QuotedArgument
import CMakeSense.Proofs.Script.Reading
import CMakeSense.Proofs.Script.Recasing
import CMakeSense.Proofs.Script.SetVariables
import CMakeSense.Proofs.Script.Shift
import CMakeSense.Proofs.Script.Spelling
import CMakeSense.Proofs.Settings.Nearest
import CMakeSense.Proofs.Text.Distinct
import CMakeSense.Proofs.Text.Folding
import CMakeSense.Proofs.Text.LetterCase
import CMakeSense.Proofs.Text.Levels
import CMakeSense.Proofs.Text.Numeral
import CMakeSense.Proofs.Text.Path
import CMakeSense.Proofs.Text.Pieces
import CMakeSense.Proofs.Text.Quoting
import CMakeSense.Proofs.Text.Utf8
import CMakeSense.Proofs.Token.ArgumentLists
import CMakeSense.Proofs.Token.Blank
import CMakeSense.Proofs.Token.Boundary
import CMakeSense.Proofs.Token.BracketComment
import CMakeSense.Proofs.Token.Effect
import CMakeSense.Proofs.Token.Lexeme
import CMakeSense.Proofs.Token.Nesting
import CMakeSense.Proofs.Token.Packing
import CMakeSense.Proofs.Token.Recasing
import CMakeSense.Proofs.Token.Resemblance
import CMakeSense.Proofs.Token.Resuming
import CMakeSense.Proofs.Token.Scanner
import CMakeSense.Proofs.Token.Tiling
import CMakeSense.Proofs.Token.Walk
import CMakeSense.Proofs.Workspace.FunctionLookup
import CMakeSense.Proofs.Workspace.Inclusion
import CMakeSense.Proofs.Workspace.Loading
import CMakeSense.Proofs.Workspace.Looking
import CMakeSense.Proofs.Workspace.Offering
import CMakeSense.Proofs.Workspace.Resolution
import CMakeSense.Proofs.Workspace.Session
import CMakeSense.Proofs.Workspace.Settling
import CMakeSense.Proofs.Workspace.Watching
import CMakeSense.Query.Answer
import CMakeSense.Query.CallTip
import CMakeSense.Query.Candidates
import CMakeSense.Query.Completion
import CMakeSense.Query.Context
import CMakeSense.Query.Cursor
import CMakeSense.Query.Hover
import CMakeSense.Query.Source
import CMakeSense.Query.Strategy
import CMakeSense.Report.Basic
import CMakeSense.Report.Json
import CMakeSense.Script.Definition
import CMakeSense.Script.Lines
import CMakeSense.Script.Statement
import CMakeSense.Settings.Config
import CMakeSense.Settings.Decoding
import CMakeSense.Settings.Duration
import CMakeSense.Settings.Load
import CMakeSense.Text.Base64
import CMakeSense.Text.Basic
import CMakeSense.Text.CaseRuns
import CMakeSense.Text.Casing
import CMakeSense.Text.Decimal
import CMakeSense.Text.Numeral
import CMakeSense.Text.Path
import CMakeSense.Text.PrintableIntervals
import CMakeSense.Text.Quoted
import CMakeSense.Text.Timestamp
import CMakeSense.Text.Utf8
import CMakeSense.Token.Basic
import CMakeSense.Token.Scan
import CMakeSense.Token.State
import CMakeSense.Token.Trigger
import CMakeSense.Token.Walk
import CMakeSense.Workspace.Basic
import CMakeSense.Workspace.IncludeCache
import CMakeSense.Workspace.Symbols
import CMakeSense.Workspace.Watcher
import CMakeSense.Yaml.Cursor
import CMakeSense.Yaml.Directive
import CMakeSense.Yaml.Document
import CMakeSense.Yaml.Input
import CMakeSense.Yaml.Node
import CMakeSense.Yaml.Property
import CMakeSense.Yaml.Resolution
import CMakeSense.Yaml.Scalar.Block
import CMakeSense.Yaml.Scalar.Gap
import CMakeSense.Yaml.Scalar.Plain
import CMakeSense.Yaml.Scalar.Quoted
import CMakeSense.Yaml.Stream.Basic
import CMakeSense.Yaml.Stream.Fetch
import CMakeSense.Yaml.Token
