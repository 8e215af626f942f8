/-
Results as texts.

A result is written as data with all that belongs to it, or row by row with the values of the
columns only.
-/
import NoteQuery.Output.Csv
import NoteQuery.Output.Json
import NoteQuery.Output.Table
import NoteQuery.Query.Result
import NoteQuery.Value.Plain
import NoteQuery.Yaml.Layout

namespace NoteQuery

/-- The formats of results. -/
inductive OutputFormat where
  | json | jsonLines | yaml | csv | markdown
deriving DecidableEq

namespace OutputFormat

def all : List OutputFormat := [json, jsonLines, yaml, csv, markdown]

def name : OutputFormat → String
  | json => "json"
  | jsonLines => "jsonl"
  | yaml => "yaml"
  | csv => "csv"
  | markdown => "md"

/-- The format of a name, whatever its case. -/
def ofName (name : String) : Except Fault OutputFormat :=
  let lower := Text.lower name
  match all.find? (·.name == lower) with
  | some format => .ok format
  | none => .error (.unsupportedFormat lower)

end OutputFormat

namespace Result

/-- An object of plain data. -/
def data (fields : List (String × Value)) : Value :=
  .object (fields.map fun (name, v) => (.string name, v))

/-- The values of the columns of a row as plain data. -/
def rowData (row : Row) : Except Fault Value :=
  (Value.object row.projected).plain

/-- The rows as plain data. -/
def rowsData (rows : List Row) : Except Fault Value := do
  return .list (← rows.mapM rowData)

/-- A group as plain data. -/
def groupData (group : Group) : Except Fault Value := do
  let key ← group.key.plain
  let rows ← rowsData group.rows
  return data [("key", key), ("rows", rows)]

def statsData (stats : Stats) : Value :=
  data [("documents", .int stats.documents), ("matchedRows", .int stats.matchedRows),
    ("elapsedMs", .float (.zero false)),
    ("scannedFiles", (stats.scannedFiles.map Value.int).getD .null)]

def textsData (texts : List String) : Value :=
  .list (texts.map Value.string)

def diagnosticsData (d : Diagnostics) : Value :=
  data [("errors", textsData d.errors), ("warnings", textsData d.warnings)]

/-- Groups as plain data, null if there are none. -/
def groupsData : Option (List Group) → Except Fault Value
  | none => .ok .null
  | some groups => do return .list (← groups.mapM groupData)

/-- Summaries as plain data, null if there are none. -/
def summariesData : Option Entries → Except Fault Value
  | none => .ok .null
  | some entries => (Value.object entries).plain

/-- The rows, and the result with them, as plain data but for columns that are no texts. -/
def resultData (r : Result) : Except Fault (Value × Value) := do
  let groups ← groupsData r.groups
  let rows ← rowsData r.rows
  let summaries ← summariesData r.summaries
  return (rows, data [("view", .string r.view), ("rows", rows), ("columns", .list r.columns),
    ("groups", groups), ("summaries", summaries), ("stats", statsData r.stats),
    ("diagnostics", diagnosticsData r.diagnostics)])

/-- JSON has no form for some columns. -/
def isJsonColumn : Value → Bool
  | .null | .bool _ | .number _ | .string _ => true
  | _ => false

/-- YAML has no form for some columns. -/
def isYamlColumn : Value → Bool
  | .date _ | .timestamp _ | .bytes _ => true
  | v => isJsonColumn v

/-- All columns have a form. -/
def checkColumns (hasForm : Value → Bool) : List Value → Except Fault Unit
  | [] => .ok ()
  | column :: columns =>
    if hasForm column then do
      column.checkWritable
      checkColumns hasForm columns
    else .error .wrongKind

/-- The result as plain data in a format that has a form for some columns.  What comes before the
columns is written before them. -/
def checkedData (r : Result) (hasForm : Value → Bool) : Except Fault Value := do
  let (rows, v) ← r.resultData
  rows.checkWritable
  checkColumns hasForm r.columns
  v.checkWritable
  return v

/-- The heading of a column in records. -/
def columnText : Value → String
  | .null => ""
  | v => v.keyText

/-- What the cells of the rows show. -/
def shownRows (r : Result) : Except Fault (List (List String)) :=
  r.rows.mapM fun row => r.columns.mapM fun column =>
    ((row.projected.find? column).getD .null).display

/-- The result as a text. -/
def encode (r : Result) (format : OutputFormat) : Except Fault String :=
  match format with
  | .json => do
    let v ← r.checkedData isJsonColumn
    return Json.indented Text.dataQuoted 0 v ++ "\n"
  | .jsonLines => do
    let rows ← r.rows.mapM rowData
    (Value.list rows).checkWritable
    return Text.join "" (rows.map fun row => Json.compact Text.dataQuoted row ++ "\n")
  | .yaml => do
    let v ← r.checkedData isYamlColumn
    return Yaml.write v
  | .csv => do
    (Value.list r.columns).checkWritable
    return Csv.write (r.columns.map columnText :: (← r.shownRows))
  | .markdown => do
    let heading ← r.columns.mapM Value.display
    return Table.write heading (← r.shownRows)

end Result

end NoteQuery
