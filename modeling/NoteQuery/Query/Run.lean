/-
Running queries.

A view of a prepared query runs over documents: formulas and filters choose the rows, which are
sorted, cut to the limit, given the values of their columns, grouped and summarized.  A row
whose formulas or filters have no value is left out with an error; a cell or a summary without a
value is null with a warning.
-/
import NoteQuery.Query.Prepared
import NoteQuery.Query.Result
import NoteQuery.Query.Summary
import NoteQuery.Value.Plain

namespace NoteQuery

/-- Everything that a run depends on. -/
structure Run where
  query : PreparedQuery
  documents : List Document
  now : Timestamp
  library : Library.Registry
  scannedFiles : Option Int := none

namespace Run

/-- What is computed, and the warnings that arose. -/
abbrev Warned (α : Type) := α × List String

/-- The files of the documents. -/
def files (r : Run) : FileIndex :=
  Document.index r.documents

/-- The scope of a row. -/
def scope (r : Run) (files : FileIndex) (row : Row) (projected : Option Entries) : Scope where
  strict := r.query.strict
  now := r.now
  library := r.library
  note := row.note
  file := some row.file
  formula := row.formula
  identity := some row.identity
  projected := projected
  files := files

/-! ## Rows -/

/-- The row with its formulas, each computed from those before it.  A formula whose value is the
mapping of formulas itself closes a circle. -/
def computeFormulas (r : Run) (files : FileIndex) : Keyed Expr → Row → Except Failure Row
  | [], row => .ok row
  | (name, e) :: rest, row => do
    let v ← e.eval (r.scope files row none)
    computeFormulas r files rest { row with formula := row.formula.put name v.closeCycles }

/-- The row of a document, if it passes the filters. -/
def rowOf (r : Run) (files : FileIndex) (filters : List Filter) (doc : Document) :
    Except Failure (Option Row) := do
  let row ← r.computeFormulas files r.query.orderedFormulas
    { note := doc.note, file := doc.file, formula := [] }
  if ← Filter.allPass filters (r.scope files row none) then return some row else return none

/-- The wording of an error about a row. -/
def rowError (doc : Document) (e : EvalError) : String :=
  "row " ++ doc.file.path ++ ": " ++ e.message

/-- The rows of documents, and the errors about those that are left out, with their paths. -/
def rowsOf (r : Run) (files : FileIndex) (filters : List Filter) :
    List Document → Except Fault (List Row × List (String × String))
  | [] => .ok ([], [])
  | doc :: docs =>
    match r.rowOf files filters doc with
    | .error (.fault f) => .error f
    | .ok row => do
      let (rows, errors) ← rowsOf r files filters docs
      return (row.toList ++ rows, errors)
    | .error (.evaluation e) => do
      let (rows, errors) ← rowsOf r files filters docs
      return (rows, (doc.file.path, rowError doc e) :: errors)

/-! ## Cells -/

/-- The value of an expression in a row, null with a warning if it has none. -/
def evaluated (s : Scope) (row : Row) (source : String) (e : Expr) :
    Except Fault (Warned Value) :=
  match e.eval s with
  | .ok v => .ok (v, [])
  | .error (.evaluation e) =>
    .ok (.null, ["row " ++ row.path ++ ": " ++ source ++ ": " ++ e.message])
  | .error (.fault f) => .error f

/-- What a text refers to in a row that has no such property: the value of the expression that
it is.  A text that is no expression, or only a name that is no part of the row, refers to
nothing. -/
def expressionCell (s : Scope) (row : Row) (source : String) : Except Fault (Warned Value) :=
  match Expr.parse source with
  | .error (.syntaxError _) => .ok (.null, [])
  | .error (.fault f) => .error f
  | .ok (.name n) =>
    if (s.part? n).isSome then evaluated s row source (.name n) else .ok (.null, [])
  | .ok e => evaluated s row source e

/-- What a reference gives for a row: a property of the note first. -/
def cell (s : Scope) (row : Row) (reference : Value) : Except Fault (Warned Value) :=
  match row.note.find? reference with
  | some v => .ok (v, [])
  | none =>
    match reference with
    | .string source => expressionCell s row source
    | _ => .error .wrongKind

/-- What references give for a row. -/
def cells (s : Scope) (row : Row) : List Value → Except Fault (Warned (List Value))
  | [] => .ok ([], [])
  | reference :: references => do
    let (v, warnings) ← cell s row reference
    let (vs, more) ← cells s row references
    return (v :: vs, warnings ++ more)

/-- What a computation gives for each row. -/
def forRows {α : Type} (f : Row → Except Fault (Warned α)) :
    List Row → Except Fault (Warned (List α))
  | [] => .ok ([], [])
  | row :: rows => do
    let (a, warnings) ← f row
    let (as, more) ← forRows f rows
    return (a :: as, warnings ++ more)

/-! ## Sorting -/

/-- Two rows by their sort keys, in order. -/
def compareKeys : List SortKey → List Value → List Value → Except Failure Ordering
  | key :: keys, v :: vs, w :: ws => do
    let o ← Value.compare false v w
    match o, key.direction with
    | .eq, _ => compareKeys keys vs ws
    | o, .rising => return o
    | o, .falling => return o.swap
  | _, _, _ => .ok .eq

/-- The first row comes before the second: by the sort keys, then by path. -/
def rowBefore (keys : List SortKey) (a b : List Value × Row) : Except Failure Bool := do
  match ← compareKeys keys a.1 b.1 with
  | .eq => return Value.compareTexts a.2.path b.2.path == .lt
  | o => return o == .lt

/-- The rows in the order of a view. -/
def sorted (r : Run) (files : FileIndex) (keys : List SortKey) (rows : List Row) :
    Except QueryFailure (Warned (List Row)) := do
  let references := keys.map fun key => Value.string key.property
  let (values, warnings) ← forRows (fun row => cells (r.scope files row none) row references) rows
  let ordered : List (List Value × Row) ←
    (Sorting.sort (rowBefore keys) (values.zip rows) : Except Failure _)
  return (ordered.map (·.2), warnings)

/-- The first rows, as many as the limit says; a limit has to be an integer. -/
def limited (limit : Option Number) (rows : List Row) : Except Fault (List Row) :=
  match limit with
  | none => .ok rows
  | some (.int n) => .ok (rows.take n.toNat)
  | some (.float _) => .error .wrongKind

/-! ## Columns -/

/-- Keys that are new among those seen. -/
def addNew (seen : List Value) : List Value → List Value
  | [] => seen
  | key :: keys => addNew (if seen.any (·.sameKey key) then seen else seen ++ [key]) keys

/-- The columns of rows for which none are given: the name of the file, the properties of the
notes in the order of their paths, and the formulas in the order of their names. -/
def inferredColumns (formulas : List Value) (rows : List Row) : List Value :=
  let byPath := rows.mergeSort fun a b => a.path ≤ b.path
  let properties := byPath.flatMap fun row => row.note.map (·.1)
  let formulas := formulas.map fun name => Value.string ("formula." ++ name.keyText)
  match addNew [.string "file.name"] (properties ++ formulas) with
  | [column] => [column, .string "file.path"]
  | columns => columns

/-- The columns of a view: its own, those of the query, or inferred ones. -/
def columnsOf (r : Run) (view : View) (rows : List Row) : Except Fault (List Value) :=
  match view.columns.getD [], r.query.spec.properties.getD [] with
  | [], [] => do
    let names ← Sorting.sort FormulaOrder.nameBefore (Keyed.keys r.query.spec.formulas)
    names.forM Value.checkWritable
    return inferredColumns names rows
  | [], columns => .ok (columns.map Value.string)
  | columns, _ => .ok (columns.map Value.string)

/-- A row with the values of its columns. -/
def projectedRow (r : Run) (files : FileIndex) (columns : List Value) (row : Row) :
    Except Fault (Warned Row) := do
  let (values, warnings) ← cells (r.scope files row none) row columns
  return ({ row with projected := .ofList (columns.zip values) }, warnings)

/-- The scope of a row whose columns have their values. -/
def projectedScope (r : Run) (files : FileIndex) (row : Row) : Scope :=
  r.scope files row (some row.projected)

/-! ## Groups -/

/-- Puts a row into the group of its key. -/
def addToGroup (structuralKey : String) (key : Value) (row : Row) :
    List (String × Group) → List (String × Group)
  | [] => [(structuralKey, ⟨key, [row]⟩)]
  | (k, group) :: rest =>
    if k = structuralKey then (k, { group with rows := group.rows ++ [row] }) :: rest
    else (k, group) :: addToGroup structuralKey key row rest

/-- The key of a row, and its structural key. -/
def groupKey (s : Scope) (row : Row) (property : Value) :
    Except Fault (Warned (String × Value)) := do
  let (key, warnings) ← cell s row property
  return ((← key.stableKey, key), warnings)

/-- Rows with their keys in groups, in the order of the first rows. -/
def bucketed (keyed : List ((String × Value) × Row)) : List Group :=
  (keyed.foldl (fun buckets ((structuralKey, key), row) =>
    addToGroup structuralKey key row buckets) []).map (·.2)

/-- Groups in the order of their keys as displayed. -/
def sortGroups (direction : SortDirection) (groups : List Group) : List Group :=
  groups.mergeSort fun a b =>
    match direction with
    | .rising => a.key.displayText ≤ b.key.displayText
    | .falling => b.key.displayText ≤ a.key.displayText

/-- The groups of a view, if it groups. -/
def grouped (r : Run) (files : FileIndex) (groupBy : Option SortKey) (rows : List Row) :
    Except Fault (Warned (Option (List Group))) := do
  let some key := groupBy | return (none, [])
  let (keys, warnings) ←
    forRows (fun row => groupKey (r.projectedScope files row) row (.string key.property)) rows
  let groups := bucketed (keys.zip rows)
  Value.checkAllShown false (groups.map Group.key)
  return (some (sortGroups key.direction groups), warnings)

/-! ## Summaries -/

/-- A text that is a single name. -/
def isBareName (s : String) : Bool :=
  match s.toList with
  | [] => false
  | c :: cs => Token.isNameStart c && cs.all Token.isNamePart

/-- The expression of a summary that is not built in: a named one, or the text itself unless it
is a single name. -/
def summaryExpression? (q : PreparedQuery) (name : String) : Except Fault (Option Expr) :=
  match q.summaries.find? (.string name) with
  | some e => .ok (some e)
  | none =>
    if isBareName (Text.trim name) then .ok none
    else
      match Expr.parse name with
      | .ok e => .ok (some e)
      | .error (.syntaxError _) => .ok none
      | .error (.fault f) => .error f

/-- The scope of a summary. -/
def summaryScope (r : Run) (files : FileIndex) (values : List Value) : Scope where
  strict := r.query.strict
  now := r.now
  library := r.library
  bindings := [("values", .list values)]
  files := files

/-- The value of a summary of a column. -/
def summaryOf (r : Run) (files : FileIndex) (column : Value) (name : String)
    (values : List Value) : Except Fault (Warned Value) := do
  match Summary.ofName? name with
  | some summary => return (← summary.apply values, [])
  | none =>
    match ← summaryExpression? r.query name with
    | none => return (.null, [])
    | some e =>
      match e.eval (r.summaryScope files values) with
      | .ok v => return (v, [])
      | .error (.evaluation e) =>
        column.checkWritable
        return (.null, ["summary " ++ column.keyText ++ ": " ++ e.message])
      | .error (.fault f) => throw f

/-- The values of a column, which need not be one of those of the rows. -/
def columnValues (r : Run) (files : FileIndex) (columns : List Value) (rows : List Row)
    (column : Value) : Except Fault (Warned (List Value)) :=
  if columns.any (·.sameKey column) then
    .ok (rows.map fun row => (row.projected.find? column).getD .null, [])
  else forRows (fun row => cell (r.projectedScope files row) row column) rows

/-- The summaries of columns. -/
def summarized (r : Run) (files : FileIndex) (columns : List Value) (rows : List Row) :
    Keyed String → Except Fault (Warned Entries)
  | [] => .ok ([], [])
  | (column, name) :: rest => do
    let (values, warnings) ← r.columnValues files columns rows column
    let (v, more) ← r.summaryOf files column name values
    let (entries, others) ← summarized r files columns rows rest
    return ((column, v) :: entries, warnings ++ more ++ others)

/-! ## Views -/

/-- The view of a name, the first one without a name. -/
def viewOf (q : PreparedQuery) (name : Option String) : Except QueryError View :=
  match name, q.spec.views with
  | none, view :: _ => .ok view
  | none, [] => .error .noViews
  | some name, views =>
    match views.find? (·.name == name) with
    | some view => .ok view
    | none => .error (.viewNotFound name)

/-- What a run tells besides its result: the errors about rows in the order of the documents. -/
structure Outcome where
  result : Result
  rowErrors : List String

/-- Errors in the order of their paths. -/
def sortErrors (errors : List (String × String)) : List String :=
  (errors.mergeSort fun a b => a.1 ≤ b.1).map (·.2)

/-- Runs a view. -/
def outcome (r : Run) (viewName : Option String) : Except QueryFailure Outcome := do
  let view ← viewOf r.query viewName
  let files := r.files
  let (chosen, errors) ← r.rowsOf files (r.query.filtersOf view.name) r.documents
  let (ordered, sortWarnings) ← r.sorted files view.sort chosen
  let rows ← limited view.limit ordered
  let columns ← r.columnsOf view rows
  let (rows, cellWarnings) ← forRows (r.projectedRow files columns) rows
  let (groups, groupWarnings) ← r.grouped files view.groupBy rows
  let (summaries, summaryWarnings) ← r.summarized files columns rows view.summaries
  return {
    result := {
      view := view.name
      columns, rows, groups
      summaries := if view.summaries.isEmpty then none else some summaries
      stats := ⟨r.documents.length, chosen.length, r.scannedFiles⟩
      diagnostics := {
        errors := sortErrors errors
        warnings := sortWarnings ++ cellWarnings ++ groupWarnings ++ summaryWarnings } }
    rowErrors := errors.map (·.2) }

/-- The result of a view. -/
def result (r : Run) (viewName : Option String) : Except QueryFailure Result := do
  let outcome ← r.outcome viewName
  return outcome.result

end Run

end NoteQuery
