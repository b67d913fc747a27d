import MathMarkup.Assoc
import MathMarkup.Command
import MathMarkup.ConfigFile
import MathMarkup.Conversion
import MathMarkup.Converter
import MathMarkup.Diagnostic
import MathMarkup.Draft
import MathMarkup.Draft.Check
import MathMarkup.Draft.Writer
import MathMarkup.Environment
import MathMarkup.Host
import MathMarkup.InputCheck
import MathMarkup.Log
import MathMarkup.Markup
import MathMarkup.Markup.Check
import MathMarkup.Node
import MathMarkup.Number
import MathMarkup.Number.Binary64
import MathMarkup.Number.Shortest
import MathMarkup.Options
import MathMarkup.ParseError
import MathMarkup.Parser.Command
import MathMarkup.Parser.Cursor
import MathMarkup.Parser.Environment
import MathMarkup.Parser.Expression
import MathMarkup.Parser.Group
import MathMarkup.Parser.Script
import MathMarkup.Parser.Stepper
import MathMarkup.Proofs.Assoc
import MathMarkup.Proofs.Balance
import MathMarkup.Proofs.Columns
import MathMarkup.Proofs.Command
import MathMarkup.Proofs.Concatenation
import MathMarkup.Proofs.Content
import MathMarkup.Proofs.Conversion
import MathMarkup.Proofs.Decomposition
import MathMarkup.Proofs.Delimiters
import MathMarkup.Proofs.DisplayMode
import MathMarkup.Proofs.Document
import MathMarkup.Proofs.DraftTree
import MathMarkup.Proofs.EmptyScript
import MathMarkup.Proofs.Entries
import MathMarkup.Proofs.Except
import MathMarkup.Proofs.Folding
import MathMarkup.Proofs.Generation
import MathMarkup.Proofs.Grouping
import MathMarkup.Proofs.Height
import MathMarkup.Proofs.InputCheck.Agreement
import MathMarkup.Proofs.InputCheck.Braces
import MathMarkup.Proofs.InputCheck.Brackets
import MathMarkup.Proofs.InputCheck.Counted
import MathMarkup.Proofs.InputCheck.Matching
import MathMarkup.Proofs.InputCheck.Report
import MathMarkup.Proofs.InputCheck.Tags
import MathMarkup.Proofs.Leaves
import MathMarkup.Proofs.Limits
import MathMarkup.Proofs.Location
import MathMarkup.Proofs.Lookup
import MathMarkup.Proofs.MatchingEnd
import MathMarkup.Proofs.Material
import MathMarkup.Proofs.Merging
import MathMarkup.Proofs.Names
import MathMarkup.Proofs.Nesting
import MathMarkup.Proofs.NestingLimit
import MathMarkup.Proofs.ParsedTree
import MathMarkup.Proofs.Parser.Balanced
import MathMarkup.Proofs.Parser.Braces
import MathMarkup.Proofs.Parser.Built
import MathMarkup.Proofs.Parser.Continuing
import MathMarkup.Proofs.Parser.Derivation
import MathMarkup.Proofs.Parser.Exit
import MathMarkup.Proofs.Parser.Fitting
import MathMarkup.Proofs.Parser.Lookahead
import MathMarkup.Proofs.Parser.Loop
import MathMarkup.Proofs.Parser.Naming
import MathMarkup.Proofs.Parser.NoRaw
import MathMarkup.Proofs.Parser.Outcome
import MathMarkup.Proofs.Parser.Outline
import MathMarkup.Proofs.Parser.PairedRun
import MathMarkup.Proofs.Parser.Pairing
import MathMarkup.Proofs.Parser.Reading
import MathMarkup.Proofs.Parser.Run
import MathMarkup.Proofs.Parser.Shape
import MathMarkup.Proofs.Parser.Standalone
import MathMarkup.Proofs.Parser.Stopping
import MathMarkup.Proofs.Parser.Vanishing
import MathMarkup.Proofs.ParserOptions
import MathMarkup.Proofs.Places
import MathMarkup.Proofs.Position
import MathMarkup.Proofs.RawGroups
import MathMarkup.Proofs.Recheck
import MathMarkup.Proofs.Rejoining
import MathMarkup.Proofs.Replacement
import MathMarkup.Proofs.Resolution
import MathMarkup.Proofs.Scoping
import MathMarkup.Proofs.ScriptOrder
import MathMarkup.Proofs.Serialization
import MathMarkup.Proofs.Spacing
import MathMarkup.Proofs.Spelled
import MathMarkup.Proofs.Spelling
import MathMarkup.Proofs.Squeezing
import MathMarkup.Proofs.Stages
import MathMarkup.Proofs.Strictness
import MathMarkup.Proofs.SymbolFile
import MathMarkup.Proofs.Tables
import MathMarkup.Proofs.Termination
import MathMarkup.Proofs.Token
import MathMarkup.Proofs.Tracing
import MathMarkup.Proofs.Tree
import MathMarkup.Proofs.TreeHeight
import MathMarkup.Proofs.Verdict
import MathMarkup.Proofs.Violations
import MathMarkup.Proofs.Whitespace
import MathMarkup.Proofs.Xml.Decoder
import MathMarkup.Proofs.Xml.Escape
import MathMarkup.Proofs.Xml.Escaped
import MathMarkup.Proofs.Xml.Name
import MathMarkup.Proofs.Xml.Tag
import MathMarkup.Proofs.Xml.Unescape
import MathMarkup.Proofs.Xml.Written
import MathMarkup.Scope
import MathMarkup.Script
import MathMarkup.Symbol.Default
import MathMarkup.Symbol.Table
import MathMarkup.Text.Blank
import MathMarkup.Text.CodePoint
import MathMarkup.Text.Letter
import MathMarkup.Text.Order
import MathMarkup.Text.Printable
import MathMarkup.Text.Quoted
import MathMarkup.Token
import MathMarkup.Token.Lexer
import MathMarkup.Validation
import MathMarkup.Value
import MathMarkup.Value.Json
import MathMarkup.Value.JsonText
import MathMarkup.Value.Yaml
import MathMarkup.Value.Yaml.Cursor
import MathMarkup.Value.Yaml.Error
import MathMarkup.Value.Yaml.Node
import MathMarkup.Value.Yaml.Plain
import MathMarkup.Value.Yaml.Quoted
import MathMarkup.Value.Yaml.Reader
import MathMarkup.Xml.Char
import MathMarkup.Xml.CodePage
import MathMarkup.Xml.Document
import MathMarkup.Xml.Encoding
import MathMarkup.Xml.Escape
import MathMarkup.Xml.Identifier
import MathMarkup.Xml.Name
import MathMarkup.Xml.Namespace
import MathMarkup.Xml.Piece
import MathMarkup.Xml.Report
import MathMarkup.Xml.Uri
