import NoteQuery.Calendar.Date
import NoteQuery.Calendar.Duration
import NoteQuery.Calendar.IsoReading
import NoteQuery.Calendar.Shift
import NoteQuery.Calendar.Timestamp
import NoteQuery.CommandLine.Arguments
import NoteQuery.CommandLine.Command
import NoteQuery.CommandLine.Execution
import NoteQuery.CommandLine.Terminal
import NoteQuery.Config
import NoteQuery.Eval.Evaluator
import NoteQuery.Eval.Functions
import NoteQuery.Eval.Methods
import NoteQuery.Eval.Scope
import NoteQuery.Expr.Parser
import NoteQuery.Expr.Syntax
import NoteQuery.Expr.Token
import NoteQuery.Failure
import NoteQuery.Fault
import NoteQuery.Library.Catalog
import NoteQuery.Library.Entry
import NoteQuery.Library.Registry
import NoteQuery.Log
import NoteQuery.Main
import NoteQuery.Number.Basic
import NoteQuery.Number.Binary64
import NoteQuery.Number.Power
import NoteQuery.Number.Reading
import NoteQuery.Number.Shortest
import NoteQuery.Output.Csv
import NoteQuery.Output.Encoding
import NoteQuery.Output.Json
import NoteQuery.Output.Table
import NoteQuery.Path
import NoteQuery.Pattern.Basic
import NoteQuery.Pattern.Matching
import NoteQuery.Pattern.Reading
import NoteQuery.Pattern.Syntax
import NoteQuery.Proofs.Acceptance
import NoteQuery.Proofs.Backlinks
import NoteQuery.Proofs.Breaks
import NoteQuery.Proofs.Coincidence
import NoteQuery.Proofs.Comparability
import NoteQuery.Proofs.ConfirmedLinks
import NoteQuery.Proofs.Connectives
import NoteQuery.Proofs.Conservation
import NoteQuery.Proofs.Displays
import NoteQuery.Proofs.DocumentOrder
import NoteQuery.Proofs.DurationGrammar
import NoteQuery.Proofs.DurationShifts
import NoteQuery.Proofs.Encoding
import NoteQuery.Proofs.EpochMillis
import NoteQuery.Proofs.EpochRoundTrip
import NoteQuery.Proofs.Equality
import NoteQuery.Proofs.Escapes
import NoteQuery.Proofs.Extremes
import NoteQuery.Proofs.Fences
import NoteQuery.Proofs.FileLookup
import NoteQuery.Proofs.FilterMeaning
import NoteQuery.Proofs.FormulaCycles
import NoteQuery.Proofs.FormulaOrder
import NoteQuery.Proofs.FormulaValues
import NoteQuery.Proofs.Framing
import NoteQuery.Proofs.Fronts
import NoteQuery.Proofs.Grouping
import NoteQuery.Proofs.Guards
import NoteQuery.Proofs.HalfUp
import NoteQuery.Proofs.InferredColumns
import NoteQuery.Proofs.IntegerTexts
import NoteQuery.Proofs.Layouts
import NoteQuery.Proofs.Lexemes
import NoteQuery.Proofs.LexicalGrammar
import NoteQuery.Proofs.Loading
import NoteQuery.Proofs.Mentions
import NoteQuery.Proofs.MomentDifferences
import NoteQuery.Proofs.MomentSpans
import NoteQuery.Proofs.MonthShifts
import NoteQuery.Proofs.NameOrder
import NoteQuery.Proofs.NoteReading
import NoteQuery.Proofs.Numerals
import NoteQuery.Proofs.Obstructions
import NoteQuery.Proofs.PathEquality
import NoteQuery.Proofs.Paths
import NoteQuery.Proofs.PlainData
import NoteQuery.Proofs.Projection
import NoteQuery.Proofs.ReadFailures
import NoteQuery.Proofs.Records
import NoteQuery.Proofs.References
import NoteQuery.Proofs.Registrations
import NoteQuery.Proofs.Remainders
import NoteQuery.Proofs.Rendering
import NoteQuery.Proofs.Representatives
import NoteQuery.Proofs.Respacing
import NoteQuery.Proofs.RoundedIntegers
import NoteQuery.Proofs.RoundedValues
import NoteQuery.Proofs.Rounding
import NoteQuery.Proofs.ScannedDocuments
import NoteQuery.Proofs.Segments
import NoteQuery.Proofs.Separation
import NoteQuery.Proofs.Slices
import NoteQuery.Proofs.Strictness
import NoteQuery.Proofs.StructuralKeys
import NoteQuery.Proofs.Summaries
import NoteQuery.Proofs.TableRows
import NoteQuery.Proofs.ValuePreorder
import NoteQuery.Proofs.WallClock
import NoteQuery.Proofs.Warnings
import NoteQuery.Proofs.Yaml.Nodes
import NoteQuery.Proofs.Yaml.Tokens
import NoteQuery.Proofs.Yaml.Values
import NoteQuery.Query.Document
import NoteQuery.Query.Failure
import NoteQuery.Query.Filter
import NoteQuery.Query.FormulaOrder
import NoteQuery.Query.Logging
import NoteQuery.Query.Prepared
import NoteQuery.Query.Result
import NoteQuery.Query.Run
import NoteQuery.Query.Schema
import NoteQuery.Query.Source
import NoteQuery.Query.Spec
import NoteQuery.Query.Summary
import NoteQuery.Sorting
import NoteQuery.Text.Blank
import NoteQuery.Text.Case
import NoteQuery.Text.Cut
import NoteQuery.Text.Digit
import NoteQuery.Text.Printable
import NoteQuery.Text.Quoted
import NoteQuery.Text.Ranges
import NoteQuery.Text.Utf8
import NoteQuery.Text.Word
import NoteQuery.Value.Basic
import NoteQuery.Value.Display
import NoteQuery.Value.Key
import NoteQuery.Value.Literal
import NoteQuery.Value.Moment
import NoteQuery.Value.Order
import NoteQuery.Value.Plain
import NoteQuery.Value.StableKey
import NoteQuery.Vault.Backlinks
import NoteQuery.Vault.FrontMatter
import NoteQuery.Vault.Glob
import NoteQuery.Vault.Index
import NoteQuery.Vault.Markdown
import NoteQuery.Vault.Place
import NoteQuery.Yaml.Complaint
import NoteQuery.Yaml.Cursor
import NoteQuery.Yaml.Data
import NoteQuery.Yaml.Layout
import NoteQuery.Yaml.Node
import NoteQuery.Yaml.ScalarText
import NoteQuery.Yaml.Tag
import NoteQuery.Yaml.Token
