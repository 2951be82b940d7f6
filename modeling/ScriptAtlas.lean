import ScriptAtlas.Text.Basic
import ScriptAtlas.Text.Lines
import ScriptAtlas.Sorting
import ScriptAtlas.Vocabulary
import ScriptAtlas.Span
import ScriptAtlas.Lexeme.Basic
import ScriptAtlas.Lexeme.Shape
import ScriptAtlas.Lexeme.Piece
import ScriptAtlas.Lexeme.Header
import ScriptAtlas.Lexeme.Scan
import ScriptAtlas.Path.Basic
import ScriptAtlas.Path.Map
import ScriptAtlas.Path.Script
import ScriptAtlas.Path.Uri
import ScriptAtlas.Symbols.Symbol
import ScriptAtlas.Document.Basic
import ScriptAtlas.Document.Lookup
import ScriptAtlas.Token.Basic
import ScriptAtlas.Token.Delta
import ScriptAtlas.Text.Utf8
import ScriptAtlas.Disk
import ScriptAtlas.Problem.Rule
import ScriptAtlas.Settings.Basic
import ScriptAtlas.Symbols.Index
import ScriptAtlas.Includes.Graph
import ScriptAtlas.Includes.Closure
import ScriptAtlas.Includes.Cycle
import ScriptAtlas.Includes.Snapshot
import ScriptAtlas.Workspace.Basic
import ScriptAtlas.Workspace.Tokens
import ScriptAtlas.Problem.Basic
import ScriptAtlas.Problem.Reachability
import ScriptAtlas.Problem.Calls
import ScriptAtlas.Problem.Analysis
import ScriptAtlas.Search.Query
import ScriptAtlas.Search.Score
import ScriptAtlas.Workspace.Navigation
import ScriptAtlas.Workspace.Outline
import ScriptAtlas.Workspace.SymbolSearch
import ScriptAtlas.Workspace.Session
import ScriptAtlas.Number.Double
import ScriptAtlas.Number.Shortest
import ScriptAtlas.Text.Reader
import ScriptAtlas.Settings.Value
import ScriptAtlas.Settings.Json
import ScriptAtlas.Settings.Toml.Lexical
import ScriptAtlas.Settings.Toml.Moment
import ScriptAtlas.Settings.Toml.Node
import ScriptAtlas.Settings.Toml.Basic
import ScriptAtlas.Settings.Read
import ScriptAtlas.Settings.Load
import ScriptAtlas.Text.Printable
import ScriptAtlas.Text.Quoted
import ScriptAtlas.Includes.Report
import ScriptAtlas.Command.Basic
import ScriptAtlas.Command.Run
import ScriptAtlas.Main
import ScriptAtlas.Proofs.Sorting
import ScriptAtlas.Proofs.PathMap
import ScriptAtlas.Proofs.Scan.Pieces
import ScriptAtlas.Proofs.Scan.Covering
import ScriptAtlas.Proofs.Scan.Forms
import ScriptAtlas.Proofs.Scan.Tracking
import ScriptAtlas.Proofs.Scan.ThreadExtent
import ScriptAtlas.Proofs.Scan.Kinds
import ScriptAtlas.Proofs.Scan.Comparison
import ScriptAtlas.Proofs.Scan.Lowering
import ScriptAtlas.Proofs.Scan.LetterCase
import ScriptAtlas.Proofs.Scan.TrailingBlank
import ScriptAtlas.Proofs.Scan.LineEnds
import ScriptAtlas.Proofs.Scan.InertRows
import ScriptAtlas.Proofs.Document.LineLookup
import ScriptAtlas.Proofs.Document.Sites
import ScriptAtlas.Proofs.Document.Ownership
import ScriptAtlas.Proofs.Document.Cursor
import ScriptAtlas.Proofs.Symbols.Tables
import ScriptAtlas.Proofs.Includes.Components
import ScriptAtlas.Proofs.Includes.CycleSearch
import ScriptAtlas.Proofs.Includes.Cycles
import ScriptAtlas.Proofs.Includes.ClosureSearch
import ScriptAtlas.Proofs.Includes.Closures
import ScriptAtlas.Proofs.Path.Normalization
import ScriptAtlas.Proofs.Path.Respelling
import ScriptAtlas.Proofs.Path.Climbing
import ScriptAtlas.Proofs.Path.Spelling
import ScriptAtlas.Proofs.Disk
import ScriptAtlas.Proofs.Symbols.Spelling
import ScriptAtlas.Proofs.Includes.Spelling
import ScriptAtlas.Proofs.Workspace.Consistency
import ScriptAtlas.Proofs.Workspace.Spelling
import ScriptAtlas.Proofs.Workspace.Agreement
import ScriptAtlas.Proofs.Workspace.History
import ScriptAtlas.Proofs.Problem.Findings
import ScriptAtlas.Proofs.Workspace.Navigation
import ScriptAtlas.Proofs.Workspace.UnusedTokens
import ScriptAtlas.Proofs.Problem.UnusedVariables
import ScriptAtlas.Proofs.Problem.Independence
import ScriptAtlas.Proofs.Problem.CircularDependencies
import ScriptAtlas.Proofs.Problem.DuplicateThreads
import ScriptAtlas.Proofs.Workspace.StandaloneTokens
import ScriptAtlas.Proofs.Workspace.DisplayLines
import ScriptAtlas.Proofs.Problem.DeadCode
import ScriptAtlas.Proofs.Brackets
import ScriptAtlas.Proofs.Problem.DeadBlocks
import ScriptAtlas.Proofs.Scan.Spelling
import ScriptAtlas.Proofs.Scan.Reading
import ScriptAtlas.Proofs.Scan.Statements
import ScriptAtlas.Proofs.Scan.Assignments
import ScriptAtlas.Proofs.Problem.UnknownFunctions
import ScriptAtlas.Proofs.Token.RoundTrip
import ScriptAtlas.Proofs.Scan.Names
import ScriptAtlas.Proofs.Document.Occurrences
import ScriptAtlas.Proofs.Document.Parameters
import ScriptAtlas.Proofs.Symbols.Definitions
import ScriptAtlas.Proofs.Workspace.Preference
import ScriptAtlas.Proofs.Includes.UnusedIncludes
import ScriptAtlas.Proofs.Problem.UnreadVariables
import ScriptAtlas.Proofs.Document.Targets
import ScriptAtlas.Proofs.Symbols.ParameterKinds
import ScriptAtlas.Proofs.Workspace.Outline
