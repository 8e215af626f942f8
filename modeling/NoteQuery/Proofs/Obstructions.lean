/-
What keeps a run from its result.

Once every document has given its row or its error, little is left that can stop a run, and
`Run.Obstructed` says what: a cell, a key or a summary meets a value at the end of its range, or a
text that cannot be read at all.  Each stage fails only for one of these reasons (`failsOnly_sorted`
and those behind it); everything else that can go wrong there has become null and a warning
(`Stages.Warns`).  So a run has a result, or a reason why it has none (`result_or_obstructed`).
-/
import NoteQuery.Proofs.DocumentOrder
import NoteQuery.Proofs.Escapes
import NoteQuery.Proofs.Summaries
import NoteQuery.Proofs.Warnings

namespace NoteQuery

namespace Run

/-! ## Reasons -/

/-- A reference gives nothing for a row: the row has no such property, and the reference is no text,
or a text at which reading breaks off, or an expression out of which a fault escapes. -/
inductive CellFails (s : Scope) (row : Row) : Value → Fault → Prop
  | noText {reference : Value} : row.note.find? reference = none →
      (∀ source, reference ≠ .string source) → CellFails s row reference .wrongKind
  | unreadable {source : String} {f : Fault} : row.note.find? (.string source) = none →
      Expr.parse source = .error (.fault f) → CellFails s row (.string source) f
  | escaping {source : String} {e : Expr} {f : Fault} : row.note.find? (.string source) = none →
      Expr.parse source = .ok e → e.Escapes s f → CellFails s row (.string source) f

theorem evaluated_eq_error_iff {s : Scope} {row : Row} {source : String} {e : Expr} {f : Fault} :
    evaluated s row source e = .error f ↔ e.eval s = .error (.fault f) := by
  unfold evaluated
  cases e.eval s with
  | ok v => simp only [reduceCtorEq]
  | error failure =>
    cases failure with
    | evaluation error => simp only [reduceCtorEq, Except.error.injEq]
    | fault g => simp only [Except.error.injEq, Failure.fault.injEq]

theorem expressionCell_eq_error_iff {s : Scope} {row : Row} {source : String} {f : Fault} :
    expressionCell s row source = .error f ↔ Expr.parse source = .error (.fault f) ∨
      ∃ e, Expr.parse source = .ok e ∧ e.Escapes s f := by
  have hname {n : String} : ¬ (Expr.name n).Escapes s f := nofun
  unfold expressionCell
  cases Expr.parse source with
  | error failure =>
    cases failure with
    | syntaxError error =>
      simp only [reduceCtorEq, Except.error.injEq, false_and, exists_false, or_self]
    | fault g =>
      simp only [Except.error.injEq, ReadFailure.fault.injEq, reduceCtorEq, false_and,
        exists_false, or_false]
  | ok e =>
    have heval : evaluated s row source e = .error f ↔ e.Escapes s f := by
      rw [evaluated_eq_error_iff]
      exact ⟨Expr.escapes_of_eval e, Expr.Escapes.eval_eq⟩
    simp only [reduceCtorEq, Except.ok.injEq, exists_eq_left', false_or]
    cases e with
    | name n =>
      dsimp only
      split
      · exact heval
      · exact iff_of_false nofun hname
    | _ => exact heval

theorem cell_eq_error_iff {s : Scope} {row : Row} {reference : Value} {f : Fault} :
    cell s row reference = .error f ↔ CellFails s row reference f := by
  unfold cell
  cases hnote : row.note.find? reference with
  | some v =>
    refine iff_of_false nofun ?_
    rintro (⟨h, -⟩ | ⟨h, -⟩ | ⟨h, -⟩) <;> cases hnote.symm.trans h
  | none =>
    cases reference with
    | string source =>
      refine expressionCell_eq_error_iff.trans ?_
      constructor
      · rintro (h | ⟨e, h, hescapes⟩)
        · exact .unreadable hnote h
        · exact .escaping hnote h hescapes
      · rintro (⟨-, h⟩ | ⟨-, h⟩ | ⟨-, h, hescapes⟩)
        · exact absurd rfl (h source)
        · exact .inl h
        · exact .inr ⟨_, h, hescapes⟩
    | _ =>
      constructor
      · rintro ⟨⟩
        exact .noText hnote nofun
      · rintro ⟨-, -⟩
        rfl

/-- A summary cannot be made of the values of a column: a built-in one is obstructed, and any other
is a text at which reading breaks off, or an expression out of which a fault escapes, or one that
has no value and cannot be warned of, as the name of the column cannot be written. -/
inductive SummaryFails (r : Run) (files : FileIndex) (column : Value) (values : List Value) :
    String → Fault → Prop
  | builtin {name : String} {summary : Summary} {f : Fault} :
      Summary.ofName? name = some summary → summary.Obstructed values f →
        SummaryFails r files column values name f
  | unreadable {name : String} {f : Fault} : Summary.ofName? name = none →
      r.query.summaries.find? (.string name) = none → isBareName (Text.trim name) = false →
        Expr.parse name = .error (.fault f) → SummaryFails r files column values name f
  | escaping {name : String} {e : Expr} {f : Fault} : Summary.ofName? name = none →
      summaryExpression? r.query name = .ok (some e) → e.Escapes (r.summaryScope files values) f →
        SummaryFails r files column values name f
  | unwritten {name : String} {error : EvalError} {f : Fault} :
      SummaryUnevaluable r files values name error → column.TooLong f →
        SummaryFails r files column values name f

theorem summaryExpression?_eq_error_iff {q : PreparedQuery} {name : String} {f : Fault} :
    summaryExpression? q name = .error f ↔ q.summaries.find? (.string name) = none ∧
      isBareName (Text.trim name) = false ∧ Expr.parse name = .error (.fault f) := by
  unfold summaryExpression?
  cases q.summaries.find? (.string name) with
  | some e => simp only [reduceCtorEq, false_and]
  | none =>
    cases isBareName (Text.trim name) with
    | true => simp only [if_true, reduceCtorEq, false_and, and_false]
    | false =>
      simp only [Bool.false_eq_true, if_false, true_and]
      cases Expr.parse name with
      | ok e => simp only [reduceCtorEq]
      | error failure =>
        cases failure with
        | syntaxError error => simp only [reduceCtorEq, Except.error.injEq]
        | fault g => simp only [Except.error.injEq, ReadFailure.fault.injEq]

theorem summaryFails_of_summaryOf {r : Run} {files : FileIndex} {column : Value} {name : String}
    {values : List Value} {f : Fault} (h : r.summaryOf files column name values = .error f) :
    SummaryFails r files column values name f := by
  unfold summaryOf at h
  split at h
  · next summary hname =>
    rcases bind_eq_error.mp h with h | ⟨v, -, h⟩
    · exact .builtin hname (Summary.obstructed_of_apply h)
    · cases h
  · next hname =>
    rcases bind_eq_error.mp h with h | ⟨found, hfound, h⟩
    · obtain ⟨hsummary, hbare, hparse⟩ := summaryExpression?_eq_error_iff.mp h
      exact .unreadable hname hsummary hbare hparse
    · split at h
      · cases h
      · next e =>
        split at h
        · cases h
        · next error heval =>
          have h := Value.checkWritable_eq_error.mp (bind_return_eq_error.mp h)
          exact .unwritten (.error hname hfound heval) h
        · next g heval =>
          cases h
          exact .escaping hname hfound (Expr.escapes_of_eval e heval)

section Reached

variable (r : Run) (view : View)

/-- The rows of the documents that passed the filters. -/
def Chooses (chosen : List Row) : Prop :=
  ∃ errors, r.rowsOf r.files (r.query.filtersOf view.name) r.documents = .ok (chosen, errors)

/-- The rows that the limit leaves of those in order, and the columns. -/
def Keeps (kept : List Row) (columns : List Value) : Prop :=
  ∃ chosen ordered warnings, r.Chooses view chosen ∧
    r.sorted r.files view.sort chosen = .ok (ordered, warnings) ∧
      limited view.limit ordered = .ok kept ∧ r.columnsOf view kept = .ok columns

/-- The rows with the values of their columns. -/
def Projects (columns : List Value) (rows : List Row) : Prop :=
  ∃ kept warnings, r.Keeps view kept columns ∧
    forRows (r.projectedRow r.files columns) kept = .ok (rows, warnings)

end Reached

/-- Why a run of a view has no result although every document has given its row or its error: the
reason lies in a row that got so far, or in the values of a column. -/
inductive Obstructed (r : Run) (view : View) : Fault → Prop
  | sortCell {chosen : List Row} {row : Row} {key : SortKey} {f : Fault} :
      r.Chooses view chosen → row ∈ chosen → key ∈ view.sort →
        CellFails (r.scope r.files row none) row (.string key.property) f → Obstructed r view f
  | sortOrder {chosen : List Row} {a b : Row} {key : SortKey} {v w : Value} {f : Fault} :
      r.Chooses view chosen → a ∈ chosen → b ∈ chosen → key ∈ view.sort →
        r.HasCell r.files a key v → r.HasCell r.files b key w →
          Value.Incomparable false v w f → Obstructed r view f
  | columnName {name : Value} {f : Fault} : view.columns.getD [] = [] →
      r.query.spec.properties.getD [] = [] → name ∈ Keyed.keys r.query.spec.formulas →
        name.TooLong f → Obstructed r view f
  | cell {kept : List Row} {columns : List Value} {row : Row} {column : Value} {f : Fault} :
      r.Keeps view kept columns → row ∈ kept → column ∈ columns →
        CellFails (r.scope r.files row none) row column f → Obstructed r view f
  | groupCell {columns : List Value} {rows : List Row} {row : Row} {key : SortKey} {f : Fault} :
      r.Projects view columns rows → row ∈ rows → view.groupBy = some key →
        CellFails (r.projectedScope r.files row) row (.string key.property) f →
          Obstructed r view f
  | groupKey {columns : List Value} {rows : List Row} {row : Row} {key : SortKey} {v : Value}
      {warnings : List String} {f : Fault} :
      r.Projects view columns rows → row ∈ rows → view.groupBy = some key →
        Run.cell (r.projectedScope r.files row) row (.string key.property) = .ok (v, warnings) →
          v.Keyless f → Obstructed r view f
  | groupOrder {columns : List Value} {rows : List Row} {row : Row} {key : SortKey} {v : Value}
      {warnings : List String} {f : Fault} :
      r.Projects view columns rows → row ∈ rows → view.groupBy = some key →
        Run.cell (r.projectedScope r.files row) row (.string key.property) = .ok (v, warnings) →
          v.display = .error f → Obstructed r view f
  | summaryCell {columns : List Value} {rows : List Row} {row : Row} {column : Value}
      {name : String} {f : Fault} :
      r.Projects view columns rows → row ∈ rows → (column, name) ∈ view.summaries →
        columns.any (·.sameKey column) = false →
          CellFails (r.projectedScope r.files row) row column f → Obstructed r view f
  | summary {columns : List Value} {rows : List Row} {column : Value} {name : String}
      {values : List Value} {warnings : List String} {f : Fault} :
      r.Projects view columns rows → (column, name) ∈ view.summaries →
        r.columnValues r.files columns rows column = .ok (values, warnings) →
          SummaryFails r r.files column values name f → Obstructed r view f

/-! ## Stages -/

section Lists

variable {α : Type} {P : Fault → Prop} {s : Scope} {row : Row} {f : Row → Except Fault (Warned α)}

theorem failsOnly_cell (reference : Value) :
    FailsOnly (CellFails s row reference) (cell s row reference) :=
  fun _ h => cell_eq_error_iff.mp h

theorem failsOnly_cells {references : List Value}
    (h : ∀ reference ∈ references, ∀ f, CellFails s row reference f → P f) :
    FailsOnly P (cells s row references) := by
  induction references with
  | nil => exact failsOnly_ok _
  | cons reference references ih =>
    obtain ⟨hfirst, hrest⟩ := List.forall_mem_cons.mp h
    refine failsOnly_bind ((failsOnly_cell reference).mono hfirst) fun _ => ?_
    exact failsOnly_bind (ih hrest) fun _ => failsOnly_ok _

theorem failsOnly_forRows {rows : List Row} (h : ∀ row ∈ rows, FailsOnly P (f row)) :
    FailsOnly P (forRows f rows) := by
  induction rows with
  | nil => exact failsOnly_ok _
  | cons row rows ih =>
    obtain ⟨hfirst, hrest⟩ := List.forall_mem_cons.mp h
    refine failsOnly_bind hfirst fun _ => ?_
    exact failsOnly_bind (ih hrest) fun _ => failsOnly_ok _

end Lists

section Sorting

variable {r : Run} {files : FileIndex} {keys : List SortKey} {rows : List Row}

/-- Two rows cannot be put in order: what they have for a sort key is incomparable. -/
def Unordered (r : Run) (files : FileIndex) (keys : List SortKey) (a b : Row) (f : Fault) : Prop :=
  ∃ key ∈ keys, ∃ v w, r.HasCell files a key v ∧ r.HasCell files b key w ∧
    Value.Incomparable false v w f

theorem failsOnly_compareKeys {a b : Row} {vs ws : List Value}
    (hvs : List.Forall₂ (r.HasCell files a) keys vs)
    (hws : List.Forall₂ (r.HasCell files b) keys ws) :
    FailsOnly (fun failure => ∃ f, failure = .fault f ∧ r.Unordered files keys a b f)
      (compareKeys keys vs ws) := by
  induction hvs generalizing ws with
  | nil => exact failsOnly_ok _
  | @cons key v keys vs hv hvs ih =>
    cases hws with
    | @cons _ w _ ws hw hws =>
      have hrest := (ih hws).mono (Q := fun failure =>
        ∃ f, failure = .fault f ∧ r.Unordered files (key :: keys) a b f)
        fun _ ⟨f, hf, key', hkey', h⟩ => ⟨f, hf, key', List.mem_cons_of_mem key hkey', h⟩
      refine failsOnly_bind (fun failure h => ?_) fun o => ?_
      · obtain ⟨f, hf, h⟩ := Value.incomparable_of_compare h
        exact ⟨f, hf, key, List.mem_cons_self, v, w, hv, hw, h⟩
      · split
        · exact hrest
        · exact failsOnly_ok _
        · exact failsOnly_ok _

theorem failsOnly_sorted {P : Fault → Prop}
    (hcell : ∀ row ∈ rows, ∀ key ∈ keys, ∀ f,
      CellFails (r.scope files row none) row (.string key.property) f → P f)
    (horder : ∀ a ∈ rows, ∀ b ∈ rows, ∀ f, r.Unordered files keys a b f → P f) :
    FailsOnly (fun failure => ∃ f, failure = .fault f ∧ P f) (r.sorted files keys rows) := by
  refine failsOnly_bind_of_ok (failsOnly_mapError ?_) ?_
  · refine (failsOnly_forRows fun row hrow => failsOnly_cells ?_).mono fun f h => ⟨f, rfl, h⟩
    exact List.forall_mem_map.mpr fun key hkey f h => hcell row hrow key hkey f h
  · rintro ⟨values, warnings⟩ hvalues
    have hvalues := mapError_eq_ok.mp hvalues
    refine failsOnly_bind (failsOnly_mapError (Sorting.failsOnly_sort ?_)) fun _ => failsOnly_ok _
    intro p hp q hq
    have hkeys := failsOnly_compareKeys (hasCell_of_mem_zip hvalues hp)
      (hasCell_of_mem_zip hvalues hq)
    refine failsOnly_bind (hkeys.mono ?_) fun o => ?_
    · rintro failure ⟨f, rfl, h⟩
      exact ⟨f, rfl, horder p.2 (List.of_mem_zip hp).2 q.2 (List.of_mem_zip hq).2 f h⟩
    · split
      · exact failsOnly_ok _
      · exact failsOnly_ok _

end Sorting

section Columns

variable {r : Run} {files : FileIndex} {columns : List Value} {rows : List Row} {P : Fault → Prop}

/-- The names of the formulas of a prepared query have an order. -/
theorem exists_sort_names {spec : QuerySpec} {strict : Bool} {q : PreparedQuery}
    (h : PreparedQuery.ofSpec spec strict = .ok q) :
    ∃ names, Sorting.sort FormulaOrder.nameBefore (Keyed.keys q.spec.formulas) = .ok names := by
  obtain ⟨hspec, horder, -⟩ := PreparedQuery.formulas_of_ofSpec h
  obtain ⟨names, hnames, -⟩ := bind_eq_ok.mp horder
  rw [hspec]
  exact ⟨names, mapError_eq_ok.mp hnames⟩

theorem failsOnly_columnsOf {names : List Value} {view : View}
    (hnames : Sorting.sort FormulaOrder.nameBefore (Keyed.keys r.query.spec.formulas) = .ok names)
    (h : view.columns.getD [] = [] → r.query.spec.properties.getD [] = [] →
      ∀ name ∈ Keyed.keys r.query.spec.formulas, ∀ f, name.TooLong f → P f) :
    FailsOnly P (r.columnsOf view rows) := by
  unfold columnsOf
  split
  · next hcolumns hproperties =>
    have hwritable : FailsOnly P (names.forM Value.checkWritable) :=
      failsOnly_forM fun name hname => (Value.failsOnly_checkWritable name).mono
        (h hcolumns hproperties name ((Sorting.sort_perm hnames).mem_iff.mp hname))
    rw [hnames]
    refine failsOnly_bind_of_ok (failsOnly_ok names) fun _ hsame => ?_
    cases hsame
    exact failsOnly_bind hwritable fun _ => failsOnly_ok _
  · exact failsOnly_ok _
  · exact failsOnly_ok _

theorem failsOnly_projectedRow {row : Row}
    (h : ∀ column ∈ columns, ∀ f, CellFails (r.scope files row none) row column f → P f) :
    FailsOnly P (r.projectedRow files columns row) :=
  failsOnly_bind (failsOnly_cells h) fun _ => failsOnly_ok _

end Columns

section Groups

variable {r : Run} {files : FileIndex} {rows : List Row} {P : Fault → Prop}

/-- The key of a group is that of one of its rows. -/
theorem exists_keyed_of_mem_bucketed {keyed : List ((String × Value) × Row)} {v : Value}
    (h : v ∈ (bucketed keyed).map Group.key) : ∃ p ∈ keyed, p.1.2 = v := by
  rw [bucketed_eq, List.map_map, List.mem_map] at h
  obtain ⟨p, hp, rfl⟩ := h
  exact ⟨p, newcomers_subset hp, rfl⟩

theorem failsOnly_grouped {groupBy : Option SortKey}
    (hcell : ∀ row ∈ rows, ∀ key, groupBy = some key → ∀ f,
      CellFails (r.projectedScope files row) row (.string key.property) f → P f)
    (hkey : ∀ row ∈ rows, ∀ key, groupBy = some key → ∀ v warnings f,
      cell (r.projectedScope files row) row (.string key.property) = .ok (v, warnings) →
        v.Keyless f → P f)
    (horder : ∀ row ∈ rows, ∀ key, groupBy = some key → ∀ v warnings f,
      cell (r.projectedScope files row) row (.string key.property) = .ok (v, warnings) →
        v.display = .error f → P f) :
    FailsOnly P (r.grouped files groupBy rows) := by
  cases groupBy with
  | none => exact failsOnly_ok _
  | some key =>
    refine failsOnly_bind_of_ok (failsOnly_forRows fun row hrow => ?_) ?_
    · refine failsOnly_bind_of_ok ((failsOnly_cell _).mono (hcell row hrow key rfl)) ?_
      rintro ⟨v, warnings⟩ hv
      refine failsOnly_bind (fun f h => ?_) fun _ => failsOnly_ok _
      exact hkey row hrow key rfl v warnings f hv (Value.stableKey_eq_error_iff.mp h)
    · rintro ⟨keys, warnings⟩ hkeys
      refine failsOnly_bind (fun f h => ?_) fun _ => failsOnly_ok _
      obtain ⟨v, hv, hshown⟩ := Value.exists_of_checkAllShown h
      obtain ⟨p, hp, rfl⟩ := exists_keyed_of_mem_bucketed hv
      obtain ⟨found, hfound⟩ := mem_zip_forRows hkeys hp
      exact horder p.2 (List.of_mem_zip hp).2 key rfl p.1.2 found f (groupKey_eq_ok hfound).1
        (Value.display_eq_error_iff.mpr hshown)

end Groups

section Summaries

variable {r : Run} {files : FileIndex} {columns : List Value} {rows : List Row} {P : Fault → Prop}

theorem failsOnly_columnValues {column : Value}
    (h : columns.any (·.sameKey column) = false → ∀ row ∈ rows, ∀ f,
      CellFails (r.projectedScope files row) row column f → P f) :
    FailsOnly P (r.columnValues files columns rows column) := by
  unfold columnValues
  split
  · exact failsOnly_ok _
  · next hcolumn =>
    exact failsOnly_forRows fun row hrow =>
      (failsOnly_cell column).mono (h (Bool.eq_false_iff.mpr hcolumn) row hrow)

theorem failsOnly_summarized {summaries : Keyed String}
    (hcell : ∀ summary ∈ summaries, columns.any (·.sameKey summary.1) = false → ∀ row ∈ rows,
      ∀ f, CellFails (r.projectedScope files row) row summary.1 f → P f)
    (hsummary : ∀ summary ∈ summaries, ∀ values warnings f,
      r.columnValues files columns rows summary.1 = .ok (values, warnings) →
        SummaryFails r files summary.1 values summary.2 f → P f) :
    FailsOnly P (r.summarized files columns rows summaries) := by
  induction summaries with
  | nil => exact failsOnly_ok _
  | cons summary summaries ih =>
    obtain ⟨hcell, hcells⟩ := List.forall_mem_cons.mp hcell
    obtain ⟨hsummary, hsummaries⟩ := List.forall_mem_cons.mp hsummary
    refine failsOnly_bind_of_ok (failsOnly_columnValues hcell) ?_
    rintro ⟨values, warnings⟩ hvalues
    refine failsOnly_bind (fun f h => ?_) fun _ => ?_
    · exact hsummary values warnings f hvalues (summaryFails_of_summaryOf h)
    · exact failsOnly_bind (ih hcells hsummaries) fun _ => failsOnly_ok _

end Summaries

/-! ## Runs -/

section Results

variable {r : Run} {name : Option String} {view : View}

/-- Where no document fails, the rows of the documents are found. -/
theorem exists_rowsOf_eq_ok {filters : List Filter} {docs : List Document}
    (h : ∀ doc ∈ docs, ∀ f, r.rowOf r.files filters doc ≠ .error (.fault f)) :
    ∃ found, r.rowsOf r.files filters docs = .ok found := by
  induction docs with
  | nil => exact ⟨_, rfl⟩
  | cons doc docs ih =>
    obtain ⟨hdoc, hdocs⟩ := List.forall_mem_cons.mp h
    obtain ⟨found, hfound⟩ := ih hdocs
    rw [rowsOf]
    split
    · next f hf => exact absurd hf (hdoc f)
    · rw [hfound]
      exact ⟨_, rfl⟩
    · rw [hfound]
      exact ⟨_, rfl⟩

theorem failsOnly_limited {P : Fault → Prop} {limit : Option Number} {rows : List Row}
    (h : ∀ x, limit = some (.float x) → P .wrongKind) : FailsOnly P (limited limit rows) := by
  unfold limited
  split
  · exact failsOnly_ok _
  · exact failsOnly_ok _
  · next x => exact failsOnly_error (h x rfl)

/-- Once every document has given its row or its error, a run fails only for one of the reasons, or
because its limit is no integer. -/
theorem failsOnly_result {P : Fault → Prop} {names : List Value}
    (hnames : Sorting.sort FormulaOrder.nameBefore (Keyed.keys r.query.spec.formulas) = .ok names)
    (hview : viewOf r.query name = .ok view)
    (hdocuments : ∀ doc ∈ r.documents, ∀ f,
      r.rowOf r.files (r.query.filtersOf view.name) doc ≠ .error (.fault f))
    (hlimit : ∀ x, view.limit = some (.float x) → P .wrongKind)
    (h : ∀ f, r.Obstructed view f → P f) :
    FailsOnly (fun failure => ∃ f, failure = .fault f ∧ P f) (r.result name) := by
  have hfault {α : Type} {x : Except Fault α} (hx : FailsOnly P x) :
      FailsOnly (fun failure => ∃ f, failure = .fault f ∧ P f) (x.mapError QueryFailure.fault) :=
    failsOnly_mapError (hx.mono fun f hf => ⟨f, rfl, hf⟩)
  obtain ⟨⟨chosen, errors⟩, hrows⟩ := exists_rowsOf_eq_ok hdocuments
  have hchosen : r.Chooses view chosen := ⟨errors, hrows⟩
  refine failsOnly_bind ?_ fun _ => failsOnly_ok _
  unfold outcome
  rw [hview]
  refine failsOnly_bind_of_ok (failsOnly_ok view) fun _ hsame => ?_
  cases hsame
  refine failsOnly_bind_of_ok (hfault (hrows ▸ failsOnly_ok _)) fun found hfound => ?_
  cases (mapError_eq_ok.mp hfound).symm.trans hrows
  refine failsOnly_bind_of_ok ?_ ?_
  · refine failsOnly_sorted (fun row hrow key hkey f hcell => h f ?_)
      fun a ha b hb f horder => h f ?_
    · exact .sortCell hchosen hrow hkey hcell
    · obtain ⟨key, hkey, v, w, hv, hw, hvw⟩ := horder
      exact .sortOrder hchosen ha hb hkey hv hw hvw
  rintro ⟨ordered, sortWarnings⟩ hordered
  refine failsOnly_bind_of_ok (hfault (failsOnly_limited hlimit)) fun kept hkept => ?_
  have hkept := mapError_eq_ok.mp hkept
  refine failsOnly_bind_of_ok (hfault ?_) fun columns hcolumns => ?_
  · exact failsOnly_columnsOf hnames fun hcolumns hproperties name hname f hlong =>
      h f (.columnName hcolumns hproperties hname hlong)
  have hcolumns := mapError_eq_ok.mp hcolumns
  have hkeeps : r.Keeps view kept columns :=
    ⟨chosen, ordered, sortWarnings, hchosen, hordered, hkept, hcolumns⟩
  refine failsOnly_bind_of_ok (hfault ?_) ?_
  · exact failsOnly_forRows fun row hrow => failsOnly_projectedRow fun column hcolumn f hcell =>
      h f (.cell hkeeps hrow hcolumn hcell)
  rintro ⟨rows, cellWarnings⟩ hrows
  have hprojects : r.Projects view columns rows :=
    ⟨kept, cellWarnings, hkeeps, mapError_eq_ok.mp hrows⟩
  refine failsOnly_bind (hfault ?_) fun _ => ?_
  · refine failsOnly_grouped (fun row hrow key hkey f hcell => h f ?_)
      (fun row hrow key hkey v warnings f hcell hv => h f ?_)
      fun row hrow key hkey v warnings f hcell hv => h f ?_
    · exact .groupCell hprojects hrow hkey hcell
    · exact .groupKey hprojects hrow hkey hcell hv
    · exact .groupOrder hprojects hrow hkey hcell hv
  refine failsOnly_bind (hfault ?_) fun _ => failsOnly_ok _
  refine failsOnly_summarized (fun summary hsummary hcolumn row hrow f hcell => h f ?_)
    fun summary hsummary values warnings f hvalues hfails => h f ?_
  · exact .summaryCell hprojects hrow hsummary hcolumn hcell
  · exact .summary hprojects hsummary hvalues hfails

/-- Once every document has given its row or its error, a run that is limited to a number of rows,
or not at all, has a result, in which whatever has no value is null with a warning; or there is one
of the reasons why it has none. -/
theorem result_or_obstructed {spec : QuerySpec} {strict : Bool} {limit : Option Nat}
    (hquery : PreparedQuery.ofSpec spec strict = .ok r.query)
    (hview : viewOf r.query name = .ok view)
    (hlimit : view.limit = limit.map fun n : Nat => .int n)
    (hdocuments : ∀ doc ∈ r.documents, ∀ f,
      r.rowOf r.files (r.query.filtersOf view.name) doc ≠ .error (.fault f)) :
    (∃ x : Stages r view, r.result name = .ok x.result ∧ x.Warns) ∨
      ∃ f, r.result name = .error (.fault f) ∧ r.Obstructed view f := by
  cases hresult : r.result name with
  | ok res =>
    obtain ⟨found, hfound, x, rfl⟩ := result_eq_ok.mp hresult
    obtain rfl := Except.ok.inj (hfound.symm.trans hview)
    exact .inl ⟨x, rfl, x.warns⟩
  | error failure =>
    obtain ⟨names, hnames⟩ := exists_sort_names hquery
    have hnoFloat (x : Binary64) (h : view.limit = some (.float x)) :
        r.Obstructed view .wrongKind := by
      rw [hlimit] at h
      cases limit with
      | none => cases h
      | some n => cases h
    obtain ⟨f, rfl, hobstructed⟩ :=
      failsOnly_result hnames hview hdocuments hnoFloat (fun _ h => h) failure hresult
    exact .inr ⟨f, rfl, hobstructed⟩

end Results

/-! ### Two runs -/

/-- One view of one note, strictly evaluated. -/
def single (view : View) (note : Entries) : Run where
  query := {
    spec := { views := [view] }
    strict := true
    globalFilter := none
    viewFilters := [(view.name, none)]
    formulas := []
    formulaOrder := []
    summaries := [] }
  documents := [{ note, file := { name := "a.md", path := "a.md" } }]
  now := default
  library := .builtin

/-- A view with one column, which has no value. -/
def emptyColumn : View :=
  { name := "all", columns := some ["1 - missing"] }

/-- A note without properties gives a row of which only the file is known. -/
def bareRow : Row :=
  { note := [], file := { name := "a.md", path := "a.md" }, formula := [] }

/-- What the stages of the view give for such a note: one row with null in its column. -/
def emptyColumnStages : Stages (single emptyColumn []) emptyColumn where
  chosen := [bareRow]
  errors := []
  rowsOf_eq := rfl
  ordered := [bareRow]
  sortWarnings := []
  sorted_eq := rfl
  kept := [bareRow]
  limited_eq := rfl
  columns := [.string "1 - missing"]
  columnsOf_eq := rfl
  rows := [{ bareRow with projected := [(.string "1 - missing", .null)] }]
  cellWarnings := ["row a.md: 1 - missing: Unknown identifier: missing"]
  projected_eq := by
    have hparse : Expr.parse "1 - missing" =
        .ok (.binary .subtract (.literal (.number (.int 1)) "1") (.name "missing")) := by
      decide +kernel
    let s := (single emptyColumn []).scope (single emptyColumn []).files bareRow none
    have hcell : Unevaluable s bareRow "1 - missing" (.unknownIdentifier "missing") :=
      .error rfl hparse nofun rfl
    have hcells : cells s bareRow [.string "1 - missing"] =
        .ok ([.null], ["row a.md: 1 - missing: Unknown identifier: missing"]) := by
      rw [cells, hcell.cell_eq]
      rfl
    rw [forRows, projectedRow, hcells]
    rfl
  groups := none
  groupWarnings := []
  grouped_eq := rfl
  summaries := []
  summaryWarnings := []
  summarized_eq := rfl

theorem result_or_obstructed_emptyColumn :
    ∃ x : Stages (single emptyColumn []) emptyColumn,
      (single emptyColumn []).result none = .ok x.result ∧ x.Warns ∧
      x.result.diagnostics.warnings = ["row a.md: 1 - missing: Unknown identifier: missing"] := by
  have hresult : (single emptyColumn []).result none = .ok emptyColumnStages.result :=
    result_eq_ok.mpr ⟨emptyColumn, rfl, emptyColumnStages, rfl⟩
  have hquery : PreparedQuery.ofSpec { views := [emptyColumn] } true =
      .ok (single emptyColumn []).query := rfl
  have hview : viewOf (single emptyColumn []).query none = .ok emptyColumn := rfl
  have hlimit : emptyColumn.limit = (none : Option Nat).map fun n : Nat => .int n := rfl
  have hdocuments : ∀ doc ∈ (single emptyColumn []).documents, ∀ f,
      (single emptyColumn []).rowOf (single emptyColumn []).files
        ((single emptyColumn []).query.filtersOf emptyColumn.name) doc ≠ .error (.fault f) :=
    List.forall_mem_singleton.mpr nofun
  rcases result_or_obstructed hquery hview hlimit hdocuments with ⟨x, hx, hwarns⟩ | ⟨f, herror, -⟩
  · have hsame := Except.ok.inj (hx.symm.trans hresult)
    refine ⟨x, hx, hwarns, ?_⟩
    rw [hsame]
    rfl
  · cases hresult.symm.trans herror

/-- A view that groups by a property. -/
def groupedByDue : View :=
  { name := "due", columns := some ["due"], groupBy := some { property := "due" } }

/-- Where the note sets the property to the first day of the calendar, the document gives its row,
but there is no group for it, since the day has no structural key, and no result either. -/
theorem result_groupedByDue :
    let r := single groupedByDue [(.string "due", .date ⟨1, 1, 1, by decide⟩)]
    PreparedQuery.ofSpec { views := [groupedByDue] } true = .ok r.query ∧
      viewOf r.query none = .ok groupedByDue ∧ groupedByDue.limit = none ∧
      (∀ doc ∈ r.documents, ∃ row,
        r.rowOf r.files (r.query.filtersOf groupedByDue.name) doc = .ok (some row)) ∧
      r.result none = .error (.fault (.yearOutOfRange 0)) :=
  ⟨rfl, rfl, rfl, List.forall_mem_singleton.mpr ⟨_, rfl⟩, rfl⟩

end Run

end NoteQuery
