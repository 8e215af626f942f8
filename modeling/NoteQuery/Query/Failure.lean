/-
Failures of queries.
-/
import NoteQuery.Expr.Parser
import NoteQuery.Failure

namespace NoteQuery

/-- What is wrong with a query or with what is asked of it. -/
inductive QueryError where
  | noViews
  | duplicateView (name : String)
  | negativeLimit (view : String)
  /-- A filter that is none, in literal form. -/
  | unsupportedFilter (literal : String)
  /-- A formula that depends on itself. -/
  | formulaCycle (name : String)
  | viewNotFound (name : String)
deriving DecidableEq

def QueryError.message : QueryError → String
  | noViews => "A query needs at least one view"
  | duplicateView name => "Duplicate view name: '" ++ name ++ "'"
  | negativeLimit view => "View '" ++ view ++ "' has a negative limit"
  | unsupportedFilter literal => "Unsupported filter: " ++ literal
  | formulaCycle name => "Formula cycle detected at '" ++ name ++ "'"
  | viewNotFound name => "View not found: '" ++ name ++ "'"

/-- Why a query was not read, prepared, run or written. -/
inductive QueryFailure where
  /-- The document is no query; every issue is listed. -/
  | rejected (issues : List String)
  | query (e : QueryError)
  | syntaxError (e : SyntaxError)
  | evaluation (e : EvalError)
  | fault (f : Fault)
deriving DecidableEq

namespace QueryFailure

def message : QueryFailure → String
  | rejected issues => Text.join "; " issues
  | query e => e.message
  | syntaxError e => e.message
  | evaluation e => e.message
  | fault f => f.message

/-- A failed evaluation in a query. -/
def ofFailure : Failure → QueryFailure
  | .evaluation e => evaluation e
  | .fault f => fault f

/-- A text that is no expression in a query. -/
def ofReading : ReadFailure → QueryFailure
  | .syntaxError e => syntaxError e
  | .fault f => fault f

instance : MonadLift (Except Fault) (Except QueryFailure) := ⟨Except.mapError fault⟩
instance : MonadLift (Except Failure) (Except QueryFailure) := ⟨Except.mapError ofFailure⟩
instance : MonadLift (Except ReadFailure) (Except QueryFailure) := ⟨Except.mapError ofReading⟩
instance : MonadLift (Except QueryError) (Except QueryFailure) := ⟨Except.mapError query⟩

end QueryFailure

end NoteQuery
