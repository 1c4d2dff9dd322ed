import SqlSurvey.Text.Blank
import SqlSurvey.Text.LetterRanges
import SqlSurvey.Text.Word
import SqlSurvey.Text.Upper
import SqlSurvey.Text.Location
import SqlSurvey.Text.Digits
import SqlSurvey.Pattern.Basic
import SqlSurvey.Schema.Basic
import SqlSurvey.Sql.Piece
import SqlSurvey.Sql.Statement
import SqlSurvey.Sql.Item
import SqlSurvey.Ddl.Phrase
import SqlSurvey.Ddl.Column
import SqlSurvey.Ddl.ForeignKey
import SqlSurvey.Ddl.Table
import SqlSurvey.Ddl.Index
import SqlSurvey.Schema.Recovery
import SqlSurvey.Literal.Scanner
import SqlSurvey.Literal.Fragment
import SqlSurvey.Query.Token
import SqlSurvey.Query.Kind
import SqlSurvey.Query.Basic
import SqlSurvey.Json.Basic
import SqlSurvey.Json.Reader
import SqlSurvey.Json.Record
import SqlSurvey.Schema.Document
import SqlSurvey.Catalog.Basic
import SqlSurvey.Catalog.Document
import SqlSurvey.Report.Basic
import SqlSurvey.TypeScript.Dialect
import SqlSurvey.TypeScript.Node
import SqlSurvey.TypeScript.Lexeme
import SqlSurvey.TypeScript.Rule
import SqlSurvey.TypeScript.Grammar.Basic
import SqlSurvey.TypeScript.Grammar.Type
import SqlSurvey.TypeScript.Grammar.Function
import SqlSurvey.TypeScript.Grammar.Class
import SqlSurvey.TypeScript.Grammar.Markup
import SqlSurvey.TypeScript.Grammar.Expression
import SqlSurvey.TypeScript.Grammar.Statement
import SqlSurvey.TypeScript.Grammar.Rules
import SqlSurvey.TypeScript.Escape
import SqlSurvey.TypeScript.Source
import SqlSurvey.Files.Path
import SqlSurvey.Files.Tree
import SqlSurvey.Files.Detection
import SqlSurvey.Toml.Basic
import SqlSurvey.Toml.Scalar
import SqlSurvey.Toml.Reader
import SqlSurvey.Report.Format
import SqlSurvey.Settings.Failure
import SqlSurvey.Settings.Config
import SqlSurvey.Settings.Context
import SqlSurvey.CommandLine.Arguments
import SqlSurvey.CommandLine.Run
import SqlSurvey.Main
import SqlSurvey.Proofs.Schema.Events
import SqlSurvey.Proofs.Schema.Run
import SqlSurvey.Proofs.Schema.Packing
import SqlSurvey.Proofs.Pattern.Hits
import SqlSurvey.Proofs.Pattern.Search
import SqlSurvey.Proofs.Pattern.Seam
import SqlSurvey.Proofs.Pattern.Layout
import SqlSurvey.Proofs.Pattern.Parts
import SqlSurvey.Proofs.Pattern.FindAll
import SqlSurvey.Proofs.Text.Basic
import SqlSurvey.Proofs.Text.Layout
import SqlSurvey.Proofs.Sql.Pieces
import SqlSurvey.Proofs.Sql.Items
import SqlSurvey.Proofs.Sql.Hollow
import SqlSurvey.Proofs.Sql.Layout
import SqlSurvey.Proofs.Sql.Statements
import SqlSurvey.Proofs.Ddl.Phrase
import SqlSurvey.Proofs.Ddl.Table
import SqlSurvey.Proofs.Literal.Grammar
import SqlSurvey.Proofs.Literal.Scan
import SqlSurvey.Proofs.Literal.Fragments
import SqlSurvey.Proofs.Literal.Place
import SqlSurvey.Proofs.Literal.Joined
import SqlSurvey.Proofs.Literal.Templates
import SqlSurvey.Proofs.Schema.Rendering
import SqlSurvey.Proofs.Text.Identifier
import SqlSurvey.Proofs.Ddl.Column
import SqlSurvey.Proofs.Ddl.Key
import SqlSurvey.Proofs.Ddl.Index
import SqlSurvey.Proofs.Ddl.Statement
import SqlSurvey.Proofs.Ddl.Body
import SqlSurvey.Proofs.Ddl.Layout
import SqlSurvey.Proofs.Ddl.Default
import SqlSurvey.Proofs.Schema.RoundTrip
import SqlSurvey.Proofs.Ddl.Head
import SqlSurvey.Proofs.Schema.Hidden
import SqlSurvey.Proofs.Schema.Layout
import SqlSurvey.Proofs.Schema.WellFormed
import SqlSurvey.Proofs.FirstSeen
import SqlSurvey.Proofs.Query.Tables
import SqlSurvey.Proofs.Catalog.Entries
import SqlSurvey.Proofs.Json.Scalar
import SqlSurvey.Proofs.Json.RoundTrip
import SqlSurvey.Proofs.Json.Record
import SqlSurvey.Proofs.Schema.Document
import SqlSurvey.Proofs.Catalog.Document
import SqlSurvey.Proofs.Report.Documents
import SqlSurvey.Proofs.Pattern.Words
import SqlSurvey.Proofs.Pattern.Written
import SqlSurvey.Proofs.Ddl.Written
import SqlSurvey.Proofs.Files.Tree
import SqlSurvey.Proofs.Settings.Context
import SqlSurvey.Proofs.Ddl.Value
import SqlSurvey.Proofs.Ddl.Constraint
import SqlSurvey.Proofs.Ddl.Event
import SqlSurvey.Proofs.Ddl.InlineReference
import SqlSurvey.Proofs.Ddl.DefaultWords
import SqlSurvey.Proofs.Ddl.ConstraintOrder
import SqlSurvey.Proofs.TypeScript.Outline
import SqlSurvey.Proofs.TypeScript.Covers
import SqlSurvey.Proofs.TypeScript.Lexeme
import SqlSurvey.Proofs.TypeScript.Rule
import SqlSurvey.Proofs.TypeScript.Reading
import SqlSurvey.Proofs.TypeScript.Grammar
import SqlSurvey.Proofs.TypeScript.Scan
import SqlSurvey.Proofs.TypeScript.Passing
import SqlSurvey.Proofs.TypeScript.Agreement
import SqlSurvey.Proofs.Query.Kind
import SqlSurvey.Proofs.Query.WordSearch
import SqlSurvey.Proofs.Query.Symbol
import SqlSurvey.Proofs.Query.Statement
import SqlSurvey.Proofs.Ddl.KeyClause
import SqlSurvey.Proofs.Ddl.QuotedDefault
import SqlSurvey.Proofs.Text.Bytes
import SqlSurvey.Proofs.Literal.Descent
import SqlSurvey.Proofs.Literal.Bytes
import SqlSurvey.Proofs.Literal.DescentRun
import SqlSurvey.Proofs.Literal.Nesting
import SqlSurvey.Proofs.Ddl.DoubleQuotes
import SqlSurvey.Proofs.Files.Path
import SqlSurvey.Proofs.Files.Lookup
import SqlSurvey.Proofs.Files.Detection
import SqlSurvey.Proofs.Pattern.Boundary
import SqlSurvey.Proofs.Sql.Inner
import SqlSurvey.Proofs.Ddl.Quoting
import SqlSurvey.Proofs.Ddl.Reference
import SqlSurvey.Proofs.Ddl.ClosedDefault
import SqlSurvey.Proofs.Ddl.FreeText
import SqlSurvey.Proofs.Ddl.ColumnText
import SqlSurvey.Proofs.Ddl.ItemText
import SqlSurvey.Proofs.Ddl.TableText
import SqlSurvey.Proofs.Ddl.IndexText
import SqlSurvey.Proofs.Schema.Quoting
import SqlSurvey.Proofs.TypeScript.Escape
import SqlSurvey.Proofs.TypeScript.QuotedString
import SqlSurvey.Proofs.TypeScript.Descendants
import SqlSurvey.Proofs.TypeScript.Attribution
import SqlSurvey.Proofs.Schema.Repetition
import SqlSurvey.Proofs.Catalog.Description
import SqlSurvey.Proofs.Files.Above
import SqlSurvey.Proofs.Settings.Nearest
import SqlSurvey.Proofs.Sql.Bytes
import SqlSurvey.Proofs.Text.Position
import SqlSurvey.Proofs.Sql.Slices
import SqlSurvey.Proofs.Pattern.Inclusion
import SqlSurvey.Proofs.Schema.Shapes
