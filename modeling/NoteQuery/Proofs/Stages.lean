/-
The stages of a run.

A run that has a result had a value at each of its stages, and `Stages` is the record of them
(`result_eq_ok`).  The stages that go through documents or rows one by one are put in a form in
which it can be read off that they commute with every change of order: a list of documents gives
the rows and the errors that the single documents give (`rowsOf_eq_ok`), and a computation for
each row gives what it gives for the single rows (`forRows_eq_ok`).
-/
import NoteQuery.Proofs.Sorting
import NoteQuery.Query.Run
import Mathlib.Data.List.Forall2

namespace NoteQuery

namespace PreparedQuery

/-! ## Prepared queries -/

variable {spec : QuerySpec} {strict : Bool} {q : PreparedQuery}

/-- A prepared query has its formulas in order, and all of them read. -/
theorem formulas_of_withoutGlobalFilter (h : withoutGlobalFilter spec strict = .ok q) :
    q.spec = spec ∧ FormulaOrder.order spec.formulas = .ok q.formulaOrder ∧
      readNamed spec.formulas = .ok q.formulas := by
  obtain ⟨-, -, hrest⟩ := bind_eq_ok.mp h
  obtain ⟨order, horder, hrest⟩ := bind_eq_ok.mp hrest
  obtain ⟨formulas, hformulas, hrest⟩ := bind_eq_ok.mp hrest
  obtain ⟨filters, -, hrest⟩ := bind_eq_ok.mp hrest
  obtain ⟨summaries, -, hrest⟩ := bind_eq_ok.mp hrest
  cases hrest
  exact ⟨rfl, horder, hformulas⟩

theorem formulas_of_ofSpec (h : ofSpec spec strict = .ok q) :
    q.spec = spec ∧ FormulaOrder.order spec.formulas = .ok q.formulaOrder ∧
      readNamed spec.formulas = .ok q.formulas := by
  obtain ⟨q', hq', hwith⟩ := bind_eq_ok.mp h
  obtain ⟨filter, -, hfilter⟩ := bind_eq_ok.mp hwith
  have hformulas := formulas_of_withoutGlobalFilter hq'
  cases hfilter
  exact hformulas

end PreparedQuery

namespace Run

/-! ## Rows of documents -/

section Documents

variable (r : Run) (files : FileIndex) (filters : List Filter)

/-- The row that a document gives. -/
def rowFrom? (doc : Document) : Option Row :=
  match r.rowOf files filters doc with
  | .ok row => row
  | .error _ => none

/-- The error that a document gives, with its path. -/
def errorFrom? (doc : Document) : Option (String × String) :=
  match r.rowOf files filters doc with
  | .error (.evaluation e) => some (doc.file.path, rowError doc e)
  | _ => none

variable {r files filters}

theorem rowsOf_eq_ok {docs : List Document} {rows : List Row} {errors : List (String × String)}
    (h : r.rowsOf files filters docs = .ok (rows, errors)) :
    rows = docs.filterMap (r.rowFrom? files filters) ∧
      errors = docs.filterMap (r.errorFrom? files filters) := by
  induction docs generalizing rows errors with
  | nil =>
    cases h
    exact ⟨rfl, rfl⟩
  | cons doc docs ih =>
    rw [rowsOf] at h
    split at h
    · cases h
    · next row hrow =>
      simp only [bind_eq_ok, Prod.exists] at h
      obtain ⟨rows', errors', hdocs, h⟩ := h
      cases h
      obtain ⟨rfl, rfl⟩ := ih hdocs
      have hfrom : r.rowFrom? files filters doc = row := by rw [rowFrom?, hrow]
      have herror : r.errorFrom? files filters doc = none := by rw [errorFrom?, hrow]
      rw [List.filterMap_cons, List.filterMap_cons, hfrom, herror]
      cases row with
      | none => exact ⟨rfl, rfl⟩
      | some row => exact ⟨rfl, rfl⟩
    · next e hrow =>
      simp only [bind_eq_ok, Prod.exists] at h
      obtain ⟨rows', errors', hdocs, h⟩ := h
      cases h
      obtain ⟨rfl, rfl⟩ := ih hdocs
      have hfrom : r.rowFrom? files filters doc = none := by rw [rowFrom?, hrow]
      have herror : r.errorFrom? files filters doc = some (doc.file.path, rowError doc e) := by
        rw [errorFrom?, hrow]
      rw [List.filterMap_cons, List.filterMap_cons, hfrom, herror]
      exact ⟨rfl, rfl⟩

theorem computeFormulas_file {formulas : Keyed Expr} {row row' : Row}
    (h : r.computeFormulas files formulas row = .ok row') : row'.file = row.file := by
  induction formulas generalizing row with
  | nil =>
    cases h
    rfl
  | cons formula formulas ih =>
    obtain ⟨v, -, h⟩ := bind_eq_ok.mp h
    have hfile := ih h
    exact hfile

theorem rowFrom?_eq_some_iff {doc : Document} {row : Row} :
    r.rowFrom? files filters doc = some row ↔ r.rowOf files filters doc = .ok (some row) := by
  unfold rowFrom?
  cases r.rowOf files filters doc with
  | error e => simp only [reduceCtorEq]
  | ok found => simp only [Except.ok.injEq]

/-- A row has the path of its document. -/
theorem path_of_rowFrom? {doc : Document} {row : Row}
    (h : r.rowFrom? files filters doc = some row) : row.path = doc.file.path := by
  rw [rowFrom?_eq_some_iff, rowOf] at h
  obtain ⟨row', hrow', h⟩ := bind_eq_ok.mp h
  obtain ⟨passes, -, h⟩ := bind_eq_ok.mp h
  cases passes with
  | false => cases h
  | true =>
    cases h
    exact congrArg FileRecord.path (computeFormulas_file hrow')

/-- An error stands under the path of its document. -/
theorem path_of_errorFrom? {doc : Document} {error : String × String}
    (h : r.errorFrom? files filters doc = some error) : error.1 = doc.file.path := by
  unfold errorFrom? at h
  split at h
  · cases h
    rfl
  · cases h

end Documents

section Congr

variable {r r' : Run} (hscope : r'.scope = r.scope)
include hscope

theorem computeFormulas_congr : r'.computeFormulas = r.computeFormulas := by
  funext files formulas row
  induction formulas generalizing row with
  | nil => rfl
  | cons formula formulas ih => simp only [computeFormulas, hscope, ih]

/-- The rows of documents depend on a run only by the scopes of its rows and its formulas. -/
theorem rowsOf_congr (hformulas : r'.query.orderedFormulas = r.query.orderedFormulas) :
    r'.rowsOf = r.rowsOf := by
  have hrowOf : r'.rowOf = r.rowOf := by
    funext files filters doc
    simp only [rowOf, computeFormulas_congr hscope, hformulas, hscope]
  funext files filters docs
  induction docs with
  | nil => rfl
  | cons doc docs ih => simp only [rowsOf, hrowOf, ih]

end Congr

/-- What is made of the values of a column depends on a run only by the scope of the values and by
the named summaries. -/
theorem summaryOf_congr {r r' : Run} (hscope : r'.summaryScope = r.summaryScope)
    (hnamed : r'.query.summaries = r.query.summaries) : r'.summaryOf = r.summaryOf := by
  have hexpression : summaryExpression? r'.query = summaryExpression? r.query := by
    funext name
    simp only [summaryExpression?, hnamed]
  funext files column name values
  simp only [summaryOf, hscope, hexpression]

theorem summarized_congr {r r' : Run} (hvalues : r'.columnValues = r.columnValues)
    (hsummaryOf : r'.summaryOf = r.summaryOf) : r'.summarized = r.summarized := by
  funext files columns rows summaries
  induction summaries with
  | nil => rfl
  | cons summary summaries ih => simp only [summarized, hvalues, hsummaryOf, ih]

/-- What is found under distinct paths stands under distinct paths. -/
theorem nodup_paths_filterMap {α : Type} {docs : List Document} {f : Document → Option α}
    {path : α → String} (hf : ∀ doc a, f doc = some a → path a = doc.file.path)
    (hpaths : (docs.map fun doc => doc.file.path).Nodup) :
    ((docs.filterMap f).map path).Nodup := by
  refine hpaths.sublist ?_
  clear hpaths
  induction docs with
  | nil => exact .slnil
  | cons doc docs ih =>
    rw [List.filterMap_cons, List.map_cons]
    cases hdoc : f doc with
    | none => exact ih.cons _
    | some a =>
      rw [← hf doc a hdoc]
      exact ih.cons_cons _

/-! ## Computations for each row -/

section ForRows

variable {α : Type} (f : Row → Except Fault (Warned α))

/-- What a computation gives for a row, beside the row. -/
def answerFor? (row : Row) : Option (α × Row) :=
  match f row with
  | .ok (a, _) => some (a, row)
  | .error _ => none

/-- The warnings that a computation gives for a row. -/
def warningsFor (row : Row) : List String :=
  match f row with
  | .ok (_, warnings) => warnings
  | .error _ => []

variable {f}

theorem forRows_eq_ok {rows : List Row} {as : List α} {warnings : List String}
    (h : forRows f rows = .ok (as, warnings)) :
    as.zip rows = rows.filterMap (answerFor? f) ∧ warnings = rows.flatMap (warningsFor f) := by
  induction rows generalizing as warnings with
  | nil =>
    cases h
    exact ⟨rfl, rfl⟩
  | cons row rows ih =>
    simp only [forRows, bind_eq_ok, Prod.exists] at h
    obtain ⟨a, first, hrow, as', rest, hrows, h⟩ := h
    cases h
    obtain ⟨hzip, rfl⟩ := ih hrows
    have hanswer : answerFor? f row = some (a, row) := by rw [answerFor?, hrow]
    have hwarnings : warningsFor f row = first := by rw [warningsFor, hrow]
    rw [List.filterMap_cons, hanswer, List.zip_cons_cons, hzip, List.flatMap_cons, hwarnings]
    exact ⟨rfl, rfl⟩

theorem forRows_length {rows : List Row} {as : List α} {warnings : List String}
    (h : forRows f rows = .ok (as, warnings)) : as.length = rows.length := by
  induction rows generalizing as warnings with
  | nil =>
    cases h
    rfl
  | cons row rows ih =>
    simp only [forRows, bind_eq_ok, Prod.exists] at h
    obtain ⟨a, first, -, as', rest, hrows, h⟩ := h
    cases h
    exact congrArg (· + 1) (ih hrows)

theorem mem_zip_forRows {rows : List Row} {as : List α} {warnings : List String}
    (h : forRows f rows = .ok (as, warnings)) {p : α × Row} (hp : p ∈ as.zip rows) :
    ∃ found, f p.2 = .ok (p.1, found) := by
  rw [(forRows_eq_ok h).1, List.mem_filterMap] at hp
  obtain ⟨row, -, hrow⟩ := hp
  unfold answerFor? at hrow
  split at hrow
  · next a found hfound =>
    cases hrow
    exact ⟨found, hfound⟩
  · cases hrow

/-- Rows in another order give the same answers and the same warnings in another order. -/
theorem forRows_perm {rows rows' : List Row} {as as' : List α} {warnings warnings' : List String}
    (hperm : rows.Perm rows') (h : forRows f rows = .ok (as, warnings))
    (h' : forRows f rows' = .ok (as', warnings')) :
    (as.zip rows).Perm (as'.zip rows') ∧ warnings.Perm warnings' := by
  obtain ⟨hzip, rfl⟩ := forRows_eq_ok h
  obtain ⟨hzip', rfl⟩ := forRows_eq_ok h'
  rw [hzip, hzip']
  exact ⟨hperm.filterMap _, hperm.flatMap_right _⟩

end ForRows

theorem cells_eq_ok {s : Scope} {row : Row} {references vs : List Value} {warnings : List String}
    (h : cells s row references = .ok (vs, warnings)) :
    List.Forall₂ (fun reference v => ∃ found, cell s row reference = .ok (v, found))
      references vs := by
  induction references generalizing vs warnings with
  | nil =>
    cases h
    exact .nil
  | cons reference references ih =>
    simp only [cells, bind_eq_ok, Prod.exists] at h
    obtain ⟨v, first, hv, vs', rest, hvs, h⟩ := h
    cases h
    exact .cons ⟨first, hv⟩ (ih hvs)

/-! ## Sorted rows -/

section Sorted

variable {r : Run} {files : FileIndex} {keys : List SortKey} {rows : List Row}

theorem sorted_eq_ok {ordered : List Row} {warnings : List String}
    (h : r.sorted files keys rows = .ok (ordered, warnings)) :
    ∃ values pairs,
      forRows (fun row => cells (r.scope files row none) row
        (keys.map fun key => .string key.property)) rows = .ok (values, warnings) ∧
      Sorting.sort (rowBefore keys) (values.zip rows) = .ok pairs ∧ ordered = pairs.map (·.2) := by
  simp only [sorted, bind_eq_ok, Prod.exists, liftM, monadLift, MonadLift.monadLift,
    mapError_eq_ok] at h
  obtain ⟨values, found, hvalues, pairs, hpairs, h⟩ := h
  cases h
  exact ⟨values, pairs, hvalues, hpairs, rfl⟩

theorem rows_of_zip {α : Type} {f : Row → Except Fault (Warned α)} {values : List α}
    {warnings : List String} (h : forRows f rows = .ok (values, warnings)) :
    (values.zip rows).map (·.2) = rows :=
  List.map_snd_zip (Nat.le_of_eq (forRows_length h).symm)

/-- Sorting loses no row and adds none, whatever the values of the sort keys. -/
theorem sorted_perm {ordered : List Row} {warnings : List String}
    (h : r.sorted files keys rows = .ok (ordered, warnings)) : ordered.Perm rows := by
  obtain ⟨values, pairs, hvalues, hsort, rfl⟩ := sorted_eq_ok h
  have hperm := (Sorting.sort_perm hsort).map (·.2)
  rwa [rows_of_zip hvalues] at hperm

end Sorted

/-! ## Columns -/

/-- Columns are inferred from the rows and the names of the formulas, or they are texts. -/
theorem columnsOf_eq_ok {r : Run} {view : View} {rows : List Row} {columns : List Value}
    (h : r.columnsOf view rows = .ok columns) :
    (∃ names, Sorting.sort FormulaOrder.nameBefore (Keyed.keys r.query.spec.formulas) = .ok names ∧
      columns = inferredColumns names rows) ∨
    ∃ texts : List String, columns = texts.map Value.string := by
  unfold columnsOf at h
  split at h
  · obtain ⟨names, hnames, h⟩ := bind_eq_ok.mp h
    obtain ⟨_, -, h⟩ := bind_eq_ok.mp h
    cases h
    exact .inl ⟨names, hnames, rfl⟩
  · cases h
    exact .inr ⟨_, rfl⟩
  · cases h
    exact .inr ⟨_, rfl⟩

/-! ## The record of a run -/

/-- What the stages of a run of a view gave, each from what came before it. -/
structure Stages (r : Run) (view : View) where
  chosen : List Row
  errors : List (String × String)
  rowsOf_eq : r.rowsOf r.files (r.query.filtersOf view.name) r.documents = .ok (chosen, errors)
  ordered : List Row
  sortWarnings : List String
  sorted_eq : r.sorted r.files view.sort chosen = .ok (ordered, sortWarnings)
  kept : List Row
  limited_eq : limited view.limit ordered = .ok kept
  columns : List Value
  columnsOf_eq : r.columnsOf view kept = .ok columns
  rows : List Row
  cellWarnings : List String
  projected_eq : forRows (r.projectedRow r.files columns) kept = .ok (rows, cellWarnings)
  groups : Option (List Group)
  groupWarnings : List String
  grouped_eq : r.grouped r.files view.groupBy rows = .ok (groups, groupWarnings)
  summaries : Entries
  summaryWarnings : List String
  summarized_eq :
    r.summarized r.files columns rows view.summaries = .ok (summaries, summaryWarnings)

/-- The result in which a run ends. -/
def Stages.result {r : Run} {view : View} (x : Stages r view) : Result where
  view := view.name
  columns := x.columns
  rows := x.rows
  groups := x.groups
  summaries := if view.summaries.isEmpty then none else some x.summaries
  stats := ⟨r.documents.length, x.chosen.length, r.scannedFiles⟩
  diagnostics := {
    errors := sortErrors x.errors
    warnings := x.sortWarnings ++ x.cellWarnings ++ x.groupWarnings ++ x.summaryWarnings }

/-- A run has a result exactly when it went through all stages. -/
theorem result_eq_ok {r : Run} {name : Option String} {res : Result} :
    r.result name = .ok res ↔
      ∃ view, viewOf r.query name = .ok view ∧ ∃ x : Stages r view, x.result = res := by
  simp only [result, outcome, bind_eq_ok, Prod.exists, liftM, monadLift, MonadLift.monadLift,
    mapError_eq_ok]
  constructor
  · rintro ⟨out, ⟨view, hview, chosen, errors, hrowsOf, ordered, sortWarnings, hsorted, kept,
      hlimited, columns, hcolumns, rows, cellWarnings, hprojected, groups, groupWarnings, hgrouped,
      summaries, summaryWarnings, hsummarized, hout⟩, hres⟩
    cases hout
    cases hres
    exact ⟨view, hview, ⟨chosen, errors, hrowsOf, ordered, sortWarnings, hsorted, kept, hlimited,
      columns, hcolumns, rows, cellWarnings, hprojected, groups, groupWarnings, hgrouped,
      summaries, summaryWarnings, hsummarized⟩, rfl⟩
  · rintro ⟨view, hview, x, rfl⟩
    exact ⟨⟨x.result, x.errors.map (·.2)⟩, ⟨view, hview, x.chosen, x.errors, x.rowsOf_eq, x.ordered,
      x.sortWarnings, x.sorted_eq, x.kept, x.limited_eq, x.columns, x.columnsOf_eq, x.rows,
      x.cellWarnings, x.projected_eq, x.groups, x.groupWarnings, x.grouped_eq, x.summaries,
      x.summaryWarnings, x.summarized_eq, rfl⟩, rfl⟩

end Run

end NoteQuery
