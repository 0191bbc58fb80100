import WhereClause.Calendar.Date
import WhereClause.Calendar.DateTime
import WhereClause.Calendar.Reader
import WhereClause.Calendar.Timestamp
import WhereClause.Calendar.Zone
import WhereClause.Command.Arguments
import WhereClause.Command.Basic
import WhereClause.Command.Program
import WhereClause.Entries
import WhereClause.Files.Host
import WhereClause.Files.Location
import WhereClause.Files.Path
import WhereClause.Files.Tree
import WhereClause.Filter.Compile
import WhereClause.Filter.Document
import WhereClause.Filter.Error
import WhereClause.Filter.Operator
import WhereClause.Filter.Predicate
import WhereClause.Filter.Query
import WhereClause.Json.Basic
import WhereClause.Json.Bracketed
import WhereClause.Json.Error
import WhereClause.Json.Numeral
import WhereClause.Json.Printer
import WhereClause.Json.Quoted
import WhereClause.Json.Reader
import WhereClause.Json.Skip
import WhereClause.Main
import WhereClause.Number.Basic
import WhereClause.Number.Binary64
import WhereClause.Number.Shortest
import WhereClause.Proofs.Command.RoundTrip
import WhereClause.Proofs.Command.Session
import WhereClause.Proofs.Files.Path
import WhereClause.Proofs.Files.Tree
import WhereClause.Proofs.Filter.Assignment
import WhereClause.Proofs.Filter.Atoms
import WhereClause.Proofs.Filter.Duality
import WhereClause.Proofs.Filter.Formula
import WhereClause.Proofs.Filter.Grammar
import WhereClause.Proofs.Filter.Grouping
import WhereClause.Proofs.Filter.Leaves
import WhereClause.Proofs.Filter.Limit
import WhereClause.Proofs.Filter.Negation
import WhereClause.Proofs.Filter.Precedence
import WhereClause.Proofs.Filter.Agreement
import WhereClause.Proofs.Filter.Reading
import WhereClause.Proofs.Filter.Shape
import WhereClause.Proofs.Filter.Fields
import WhereClause.Proofs.Filter.Shorthand
import WhereClause.Proofs.Filter.Levels
import WhereClause.Proofs.Filter.DoubleNegation
import WhereClause.Proofs.Filter.Exclusion
import WhereClause.Proofs.Filter.Structure
import WhereClause.Proofs.Filter.Tokens
import WhereClause.Proofs.Json.Numeral
import WhereClause.Proofs.Json.Quoted
import WhereClause.Proofs.Outcome
import WhereClause.Proofs.Settings.Document
import WhereClause.Proofs.Sql.Comparison
import WhereClause.Proofs.Sql.Lexer
import WhereClause.Proofs.Sql.Literal
import WhereClause.Proofs.Sql.Rendering
import WhereClause.Settings.Basic
import WhereClause.Settings.Configuration
import WhereClause.Settings.Error
import WhereClause.Settings.Reader
import WhereClause.Settings.Schema
import WhereClause.Sql.Builder
import WhereClause.Sql.Dialect
import WhereClause.Sql.Fragment
import WhereClause.Sql.Template
import WhereClause.Sql.Value
import WhereClause.Text.CharSet
import WhereClause.Text.ControlSequence
import WhereClause.Text.Digits
import WhereClause.Text.Parts
import WhereClause.Text.Position
import WhereClause.Text.Printable
import WhereClause.Proofs.Command.SetUp
import WhereClause.Proofs.Command.Sequence
import WhereClause.Proofs.Json.Grammar
import WhereClause.Proofs.Json.Schema
import WhereClause.Proofs.Json.Soundness
import WhereClause.Proofs.Settings.Conformance
import WhereClause.Proofs.Sql.Decoding
import WhereClause.Proofs.Sql.Members
import WhereClause.Proofs.Sql.Substitution
import WhereClause.Proofs.Filter.Predicate
import WhereClause.Proofs.Filter.Fragments
import WhereClause.Proofs.Filter.Composition
import WhereClause.Proofs.Filter.Vacuous
import WhereClause.Proofs.Filter.Lines
import WhereClause.Proofs.Filter.DeMorgan
import WhereClause.Proofs.Filter.Offsets
import WhereClause.Proofs.Filter.Rearrangement
import WhereClause.Proofs.Filter.Sameness
import WhereClause.Proofs.Number.Rounding
import WhereClause.Proofs.Sql.Number
import WhereClause.Proofs.Sql.Lists
import WhereClause.Proofs.Filter.Documents
import WhereClause.Proofs.Calendar.Fields
import WhereClause.Proofs.Calendar.DayNumber
import WhereClause.Proofs.Calendar.Shift
import WhereClause.Proofs.Calendar.RoundTrip
import WhereClause.Proofs.Calendar.Zone
import WhereClause.Proofs.Calendar.Forms
import WhereClause.Proofs.Calendar.Attempts
import WhereClause.Proofs.Calendar.Instants
import WhereClause.Proofs.Calendar.Order
import WhereClause.Proofs.Calendar.Milliseconds
import WhereClause.Proofs.Entries
import WhereClause.Proofs.Filter.Insertion
import WhereClause.Proofs.Json.Completeness
import WhereClause.Proofs.Json.Pieces
import WhereClause.Proofs.Json.Uniqueness
import WhereClause.Proofs.Json.Values
import WhereClause.Proofs.Settings.Members
import WhereClause.Proofs.Settings.Rearrangement
import WhereClause.Proofs.Sql.NormalForm
