import FieldAudit.Analysis
import FieldAudit.Check
import FieldAudit.CommandLine
import FieldAudit.CommandLine.Arguments
import FieldAudit.CommandLine.OptionReader
import FieldAudit.Failure
import FieldAudit.FileTree
import FieldAudit.Go.Binding
import FieldAudit.Go.CallArguments
import FieldAudit.Go.Cursor
import FieldAudit.Go.Grammar
import FieldAudit.Go.Grammar.Block
import FieldAudit.Go.Grammar.Declaration
import FieldAudit.Go.Grammar.Expression
import FieldAudit.Go.Grammar.Statement
import FieldAudit.Go.Grammar.TypeExpression
import FieldAudit.Go.IdentifierChar
import FieldAudit.Go.Lexeme
import FieldAudit.Go.Load
import FieldAudit.Go.Package
import FieldAudit.Go.Parser
import FieldAudit.Go.Reader
import FieldAudit.Go.SourceTree
import FieldAudit.Go.Syntax
import FieldAudit.Go.Token
import FieldAudit.Go.Traversal
import FieldAudit.Go.TypeName
import FieldAudit.Literal
import FieldAudit.Literal.Number
import FieldAudit.Main
import FieldAudit.Proofs.ActionBoundary
import FieldAudit.Proofs.ActionOpening
import FieldAudit.Proofs.ByteOrder
import FieldAudit.Proofs.CallAccounting
import FieldAudit.Proofs.ControlNesting
import FieldAudit.Proofs.Decoding
import FieldAudit.Proofs.DefinitionTable
import FieldAudit.Proofs.Definitions
import FieldAudit.Proofs.EarlyExit
import FieldAudit.Proofs.ElseChain
import FieldAudit.Proofs.EndOfTokens
import FieldAudit.Proofs.ErrorPosition
import FieldAudit.Proofs.FatalRun
import FieldAudit.Proofs.FieldReference
import FieldAudit.Proofs.FieldRun
import FieldAudit.Proofs.FlagSpelling
import FieldAudit.Proofs.Gathering
import FieldAudit.Proofs.JsonReport
import FieldAudit.Proofs.JsonText
import FieldAudit.Proofs.LexerRun
import FieldAudit.Proofs.LexingRounds
import FieldAudit.Proofs.LineColumn
import FieldAudit.Proofs.LiteralTokens
import FieldAudit.Proofs.LoadedFiles
import FieldAudit.Proofs.Lookahead
import FieldAudit.Proofs.LoopControl
import FieldAudit.Proofs.Lossless
import FieldAudit.Proofs.Messages.Calls
import FieldAudit.Proofs.Messages.Lines
import FieldAudit.Proofs.Messages.Templates
import FieldAudit.Proofs.MissingFields
import FieldAudit.Proofs.NumberForm
import FieldAudit.Proofs.NumberTokens
import FieldAudit.Proofs.OptionalSpace
import FieldAudit.Proofs.Printing.Canonical
import FieldAudit.Proofs.Printing.Pipe
import FieldAudit.Proofs.Printing.RoundTrip
import FieldAudit.Proofs.Reading.ElseBranch
import FieldAudit.Proofs.Reading.Failure
import FieldAudit.Proofs.Reading.Passage
import FieldAudit.Proofs.Reading.Phrase
import FieldAudit.Proofs.Reading.Preorder
import FieldAudit.Proofs.Reading.Progress
import FieldAudit.Proofs.Reading.Seam
import FieldAudit.Proofs.Reading.Simulation
import FieldAudit.Proofs.Reading.Splice
import FieldAudit.Proofs.Reading.Unchecked
import FieldAudit.Proofs.Resolution
import FieldAudit.Proofs.Scope
import FieldAudit.Proofs.Shadowing
import FieldAudit.Proofs.SourcePosition
import FieldAudit.Proofs.Spelling
import FieldAudit.Proofs.Syntax.Expressions
import FieldAudit.Proofs.Syntax.Formed
import FieldAudit.Proofs.Syntax.PlaceOrder
import FieldAudit.Proofs.Syntax.Places
import FieldAudit.Proofs.Syntax.Readers
import FieldAudit.Proofs.Syntax.Shape
import FieldAudit.Proofs.Syntax.Statements
import FieldAudit.Proofs.Syntax.Tokens
import FieldAudit.Proofs.Syntax.Trees
import FieldAudit.Proofs.Syntax.Types
import FieldAudit.Proofs.TemplateDirectory
import FieldAudit.Proofs.TokenGrammar
import FieldAudit.Proofs.TokenLayout
import FieldAudit.Proofs.TokenStream
import FieldAudit.Proofs.TrimMarker
import FieldAudit.Proofs.TypeInference
import FieldAudit.Proofs.UsagePolicy
import FieldAudit.Proofs.Walk
import FieldAudit.Proofs.WellFormed
import FieldAudit.Render.Api
import FieldAudit.Render.Usage
import FieldAudit.Report
import FieldAudit.Report.Json
import FieldAudit.Settings
import FieldAudit.Template.Directory
import FieldAudit.Template.Error
import FieldAudit.Template.FieldReference
import FieldAudit.Template.Input
import FieldAudit.Template.Node
import FieldAudit.Template.Node.Walk
import FieldAudit.Template.Pipeline
import FieldAudit.Template.Token
import FieldAudit.Template.Token.Lexer
import FieldAudit.Template.Token.Scan
import FieldAudit.Template.Tree
import FieldAudit.Text.Alphanumeric
import FieldAudit.Text.Basic
import FieldAudit.Text.Blank
import FieldAudit.Text.CodePointSet
import FieldAudit.Text.Location
import FieldAudit.Text.Printable
import FieldAudit.Text.Quoted
import FieldAudit.Text.Utf8
import FieldAudit.Warning
import FieldAudit.Workspace
