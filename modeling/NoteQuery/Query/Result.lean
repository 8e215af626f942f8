/-
Results of queries.
-/
import NoteQuery.Query.Document

namespace NoteQuery

/-- A document that passed the filters, with its formulas and the values of its columns. -/
structure Row where
  note : Entries
  file : FileRecord Value
  formula : Entries
  projected : Entries := []

namespace Row

def path (r : Row) : String :=
  r.file.path

/-- The row by its names: what expressions call `this`. -/
def identity (r : Row) : Entries :=
  .ofTexts [("path", .string r.file.path), ("name", .string r.file.name)]

end Row

/-- Rows with one value in common. -/
structure Group where
  key : Value
  rows : List Row

/-- What a run has counted. -/
structure Stats where
  documents : Nat
  matchedRows : Nat
  scannedFiles : Option Int

/-- What went wrong with single rows, columns and summaries. -/
structure Diagnostics where
  errors : List String
  warnings : List String

/-- The result of a run. -/
structure Result where
  view : String
  columns : List Value
  rows : List Row
  groups : Option (List Group)
  summaries : Option Entries
  stats : Stats
  diagnostics : Diagnostics

end NoteQuery
