/-
Prepared queries.

Before it runs, a query is checked, its formulas are put in order, and every expression in it is
read.  A prepared query does not change and can run any number of times.
-/
import NoteQuery.Query.Filter
import NoteQuery.Query.FormulaOrder

namespace NoteQuery

/-- A query with all of its expressions read. -/
structure PreparedQuery where
  spec : QuerySpec
  strict : Bool
  globalFilter : Option Filter
  viewFilters : List (String × Option Filter)
  formulas : Keyed Expr
  formulaOrder : List Value
  summaries : Keyed Expr

namespace PreparedQuery

/-- Each view has a name of its own and no negative limit. -/
def checkViews (seen : List String) : List View → Except QueryError Unit
  | [] => .ok ()
  | view :: views => do
    if seen.contains view.name then throw (.duplicateView view.name)
    if (view.limit.map (·.lt (.int 0))).getD false then throw (.negativeLimit view.name)
    checkViews (view.name :: seen) views

/-- There is a view, and the views are in order. -/
def checkStructure (spec : QuerySpec) : Except QueryError Unit :=
  if spec.views.isEmpty then .error .noViews else checkViews [] spec.views

/-- The expressions of texts under names. -/
def readNamed (sources : Keyed String) : Except QueryFailure (Keyed Expr) :=
  sources.mapM fun (name, source) => do
    let e ← Expr.parse source
    return (name, e)

/-- The query with all expressions read but those of the filter that all views share. -/
def withoutGlobalFilter (spec : QuerySpec) (strict : Bool) :
    Except QueryFailure PreparedQuery := do
  checkStructure spec
  let formulaOrder ← FormulaOrder.order spec.formulas
  let formulas ← readNamed spec.formulas
  let viewFilters ← spec.views.mapM fun view => do
    let filter ← Filter.ofSpec view.filters
    return (view.name, filter)
  let summaries ← readNamed spec.summaries
  return { spec, strict, globalFilter := none, viewFilters, formulas, formulaOrder, summaries }

/-- Reads the filter that all views share. -/
def withGlobalFilter (q : PreparedQuery) : Except QueryFailure PreparedQuery := do
  let filter ← Filter.ofSpec q.spec.filters
  return { q with globalFilter := filter }

/-- The prepared query. -/
def ofSpec (spec : QuerySpec) (strict : Bool) : Except QueryFailure PreparedQuery := do
  (← withoutGlobalFilter spec strict).withGlobalFilter

/-- The names of the views. -/
def viewNames (q : PreparedQuery) : List String :=
  q.spec.views.map View.name

/-- The filters of a view: the one that all share, and its own. -/
def filtersOf (q : PreparedQuery) (view : String) : List Filter :=
  q.globalFilter.toList ++ ((q.viewFilters.lookup view).bind id).toList

/-- The formulas in order of computation. -/
def orderedFormulas (q : PreparedQuery) : Keyed Expr :=
  q.formulaOrder.filterMap fun name => (q.formulas.find? name).map (name, ·)

end PreparedQuery

end NoteQuery
