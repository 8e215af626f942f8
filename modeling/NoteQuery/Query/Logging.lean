/-
What the log tells of queries that are prepared and run.
-/
import NoteQuery.Query.Run
import NoteQuery.Query.Source

namespace NoteQuery

namespace PreparedQuery

/-- What the log tells of a prepared query. -/
def summary (q : PreparedQuery) : String :=
  "Compiled query: " ++ toString q.spec.views.length ++ " view(s), formula order " ++
    (Value.list q.formulaOrder).literal ++ ", " ++ toString q.summaries.length ++
    " summary formula(s)"

/-- Prepares a query. -/
def logged (spec : QuerySpec) (strict : Bool) : Logged QueryFailure PreparedQuery := do
  let q ← Logged.ofExcept (withoutGlobalFilter spec strict)
  Logged.note .debug .preparation q.summary
  Logged.ofExcept q.withGlobalFilter

end PreparedQuery

namespace Run

/-- What the log tells of a result; runs are not timed. -/
def summary (r : Result) : String :=
  "View '" ++ r.view ++ "': " ++ toString r.stats.documents ++ " document(s), " ++
    toString r.stats.matchedRows ++ " matched, " ++ toString r.rows.length ++
    " returned in 0.0 ms"

/-- Runs a view. -/
def logged (r : Run) (viewName : Option String) : Logged QueryFailure Result := do
  let outcome ← Logged.ofExcept (r.outcome viewName)
  let messages := outcome.rowErrors ++ outcome.result.diagnostics.warnings
  messages.forM (Logged.note .warning .run)
  Logged.note .debug .run (summary outcome.result)
  return outcome.result

end Run

end NoteQuery
