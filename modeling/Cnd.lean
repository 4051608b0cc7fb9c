import Cnd.Calendar
import Cnd.CommandLine.Arguments
import Cnd.CommandLine.Run
import Cnd.Constraint
import Cnd.Data
import Cnd.Decimal.Binary64
import Cnd.Decimal.Shortest
import Cnd.Definition
import Cnd.DefinitionFile
import Cnd.Elaboration
import Cnd.Event
import Cnd.Export.Basic
import Cnd.Export.File
import Cnd.FilePath
import Cnd.FileTree
import Cnd.Interval
import Cnd.ItemPath
import Cnd.Json.Read
import Cnd.Json.Write
import Cnd.Keyword
import Cnd.Lint.Files
import Cnd.Lint.Report
import Cnd.Lint.Structure
import Cnd.Location
import Cnd.Log
import Cnd.Main
import Cnd.Name
import Cnd.NameError
import Cnd.Namespaces.Basic
import Cnd.Namespaces.Session
import Cnd.Numeral
import Cnd.Outline.Basic
import Cnd.Outline.Read
import Cnd.ParseError
import Cnd.Pattern.Basic
import Cnd.Pattern.Cursor
import Cnd.Pattern.Match
import Cnd.Pattern.Reader
import Cnd.Proofs.Calendar
import Cnd.Proofs.CommandLine.Output
import Cnd.Proofs.CommandLine.Status
import Cnd.Proofs.Constraint
import Cnd.Proofs.Constraint.DeepPath
import Cnd.Proofs.Constraint.DoubleRange
import Cnd.Proofs.Constraint.Range
import Cnd.Proofs.Data
import Cnd.Proofs.Decimal.Layout
import Cnd.Proofs.Decimal.Order
import Cnd.Proofs.Decimal.Reading
import Cnd.Proofs.Decimal.Rounding
import Cnd.Proofs.Decimal.Shortest
import Cnd.Proofs.Elaboration.Alike
import Cnd.Proofs.Elaboration.Failure
import Cnd.Proofs.Elaboration.FirstFault
import Cnd.Proofs.Elaboration.Known
import Cnd.Proofs.Elaboration.Marks
import Cnd.Proofs.Elaboration.Meaning
import Cnd.Proofs.Except
import Cnd.Proofs.Export.Confused
import Cnd.Proofs.Export.Decode
import Cnd.Proofs.Export.Merged
import Cnd.Proofs.Export.Names
import Cnd.Proofs.Export.ReadBack
import Cnd.Proofs.Export.Save
import Cnd.Proofs.Export.SaveYaml
import Cnd.Proofs.Export.Table
import Cnd.Proofs.Export.Valid
import Cnd.Proofs.FilePath
import Cnd.Proofs.FileTree
import Cnd.Proofs.FileTree.Below
import Cnd.Proofs.FileTree.Name
import Cnd.Proofs.FileTree.Write
import Cnd.Proofs.ItemPath
import Cnd.Proofs.ItemPath.Canonical
import Cnd.Proofs.ItemPath.Location
import Cnd.Proofs.ItemPath.Spelling
import Cnd.Proofs.Json.ReadBack
import Cnd.Proofs.Json.Write
import Cnd.Proofs.Lint.Commands
import Cnd.Proofs.Lint.Found
import Cnd.Proofs.Lint.Suspicion
import Cnd.Proofs.Mentions
import Cnd.Proofs.Namespaces.Change
import Cnd.Proofs.Namespaces.Elected
import Cnd.Proofs.Namespaces.Extend
import Cnd.Proofs.Namespaces.Index
import Cnd.Proofs.Namespaces.Policies
import Cnd.Proofs.Namespaces.Reachable
import Cnd.Proofs.Namespaces.Render
import Cnd.Proofs.Namespaces.Resolve
import Cnd.Proofs.Numeral
import Cnd.Proofs.Outline.Complete
import Cnd.Proofs.Outline.Grammar
import Cnd.Proofs.Outline.Marks
import Cnd.Proofs.Outline.Relabel
import Cnd.Proofs.Outline.Sound
import Cnd.Proofs.Outline.Tokens
import Cnd.Proofs.Pull.Clauses
import Cnd.Proofs.Pull.Document
import Cnd.Proofs.Pull.Follows
import Cnd.Proofs.Pull.Lexer
import Cnd.Proofs.Pull.Lists
import Cnd.Proofs.Pull.Parser
import Cnd.Proofs.Pull.Progress
import Cnd.Proofs.Reading.Agreement
import Cnd.Proofs.Reading.Exact
import Cnd.Proofs.Reading.Failure
import Cnd.Proofs.Reading.Join
import Cnd.Proofs.Reading.Location
import Cnd.Proofs.Reading.Marks
import Cnd.Proofs.Reading.Names
import Cnd.Proofs.Reading.Requote
import Cnd.Proofs.Reading.WellFormed
import Cnd.Proofs.Schema.Accepts
import Cnd.Proofs.Schema.Located
import Cnd.Proofs.Schema.Order
import Cnd.Proofs.Schema.Shown
import Cnd.Proofs.SeedFile.Load
import Cnd.Proofs.SeedFile.Table
import Cnd.Proofs.Text.Blank
import Cnd.Proofs.Text.Digit
import Cnd.Proofs.Text.DigitOrder
import Cnd.Proofs.Text.Separator
import Cnd.Proofs.Text.Utf8
import Cnd.Proofs.Token.Bare
import Cnd.Proofs.Token.Join
import Cnd.Proofs.Token.Print
import Cnd.Proofs.Token.Requote
import Cnd.Proofs.Token.Scan
import Cnd.Proofs.Token.Segment
import Cnd.Proofs.Value.Date
import Cnd.Proofs.Value.DateForm
import Cnd.Proofs.Value.LongForm
import Cnd.Proofs.Value.Number
import Cnd.Proofs.Value.RoundTrip
import Cnd.Proofs.Yaml.Characters
import Cnd.Proofs.Yaml.Cursor
import Cnd.Proofs.Yaml.Document
import Cnd.Proofs.Yaml.Double
import Cnd.Proofs.Yaml.Fault
import Cnd.Proofs.Yaml.Heard
import Cnd.Proofs.Yaml.History
import Cnd.Proofs.Yaml.Layout
import Cnd.Proofs.Yaml.Meaning
import Cnd.Proofs.Yaml.Places
import Cnd.Proofs.Yaml.Position
import Cnd.Proofs.Yaml.Quoted
import Cnd.Proofs.Yaml.Single
import Cnd.Proofs.Yaml.Steps
import Cnd.Proofs.Yaml.Take
import Cnd.Proofs.Yaml.Text
import Cnd.Proofs.Yaml.Tokens
import Cnd.Proofs.Yaml.Tree
import Cnd.Proofs.Yaml.Unquoted
import Cnd.Schema.Basic
import Cnd.Schema.Documents
import Cnd.SeedFile
import Cnd.Settings
import Cnd.Text.Alphanumeric
import Cnd.Text.Base64
import Cnd.Text.Blank
import Cnd.Text.Digit
import Cnd.Text.Identifier
import Cnd.Text.LetterCase
import Cnd.Text.Lines
import Cnd.Text.Order
import Cnd.Text.Printable
import Cnd.Text.Quoted
import Cnd.Text.Ranges
import Cnd.Text.Utf8
import Cnd.TextFile
import Cnd.Token.Basic
import Cnd.Token.Scan
import Cnd.Value.Basic
import Cnd.Value.Literal
import Cnd.Yaml.Cursor
import Cnd.Yaml.Document
import Cnd.Yaml.Loader
import Cnd.Yaml.Meaning
import Cnd.Yaml.Node
import Cnd.Yaml.Scalar
import Cnd.Yaml.Stamp
import Cnd.Yaml.Tag
import Cnd.Yaml.Token
import Cnd.Yaml.Write
