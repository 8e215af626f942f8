/-
What a run warns of.

A sort key, a cell, a group key or a summary whose expression has no value is null, and the warning
that tells why stands among those of the result (`Stages.warns`).  The warnings of a stage are those
of its rows one after another (`forRows_warnings`), those of a row the ones of its cells.
-/
import NoteQuery.Proofs.Grouping
import NoteQuery.Proofs.Mappings
import NoteQuery.Proofs.RowOrder
import NoteQuery.Proofs.Stages

namespace NoteQuery

namespace Value

/-- Nothing but null has its structural key, since a key tells the kind. -/
theorem eq_null_of_stableKey {v : Value} (h : v.stableKey = .ok "null") : v = .null := by
  obtain ⟨chars, hchars, hnull⟩ := map_eq_ok.mp h
  have hkey : HasKey .null := hasKey_of_shown rfl
  have hsame : v.keyChars = Value.null.keyChars := by
    rw [keyChars_eq hchars]
    exact String.ofList_injective hnull
  exact eq_null_iff.mpr (kind_of_shape (shape_eq (hasKey_of_stableChars v hchars) hkey hsame))

end Value

namespace Run

/-! ## Warnings of rows -/

section ForRows

variable {α : Type} {f : Row → Except Fault (Warned α)} {rows : List Row} {as : List α}
  {warnings found : List String}

/-- What is warned of for a row is warned of for all. -/
theorem exists_of_mem_forRows {row : Row} (h : forRows f rows = .ok (as, warnings))
    (hrow : row ∈ rows) :
    ∃ a found, (a, row) ∈ as.zip rows ∧ f row = .ok (a, found) ∧ found ⊆ warnings := by
  rw [← rows_of_zip h] at hrow
  obtain ⟨p, hp, rfl⟩ := List.mem_map.mp hrow
  obtain ⟨found, hf⟩ := mem_zip_forRows h hp
  refine ⟨p.1, found, hp, hf, ?_⟩
  have hfound : warningsFor f p.2 = found := by rw [warningsFor, hf]
  rw [(forRows_eq_ok h).2, ← hfound]
  exact fun warning hwarning => List.mem_flatMap.mpr ⟨p.2, (List.of_mem_zip hp).2, hwarning⟩

end ForRows

theorem subset_of_cells {s : Scope} {row : Row} {references vs : List Value} {reference v : Value}
    {warnings found : List String} (h : cells s row references = .ok (vs, warnings))
    (href : reference ∈ references) (hcell : cell s row reference = .ok (v, found)) :
    found ⊆ warnings := by
  induction references generalizing vs warnings with
  | nil => cases href
  | cons first references ih =>
    simp only [cells, bind_eq_ok, Prod.exists] at h
    obtain ⟨w, front, hfirst, ws, rest, hrest, h⟩ := h
    cases h
    rcases List.mem_cons.mp href with rfl | href
    · cases hcell.symm.trans hfirst
      exact List.subset_append_left found rest
    · exact List.Subset.trans (ih hrest href) (List.subset_append_right front rest)

/-! ## Cells without a value -/

/-- A text is an expression other than a name, it has no value in a row, and the row has no property
of that name. -/
inductive Unevaluable (s : Scope) (row : Row) : String → EvalError → Prop
  | error {source : String} {e : Expr} {error : EvalError} :
      row.note.find? (.string source) = none → Expr.parse source = .ok e → (∀ n, e ≠ .name n) →
        e.eval s = .error (.evaluation error) → Unevaluable s row source error

/-- The warning about a cell. -/
def cellWarning (row : Row) (source : String) (error : EvalError) : String :=
  "row " ++ row.path ++ ": " ++ source ++ ": " ++ error.message

theorem Unevaluable.cell_eq {s : Scope} {row : Row} {source : String} {error : EvalError}
    (h : Unevaluable s row source error) :
    cell s row (.string source) = .ok (.null, [cellWarning row source error]) := by
  obtain ⟨hnote, hparse, hname, heval⟩ := h
  rw [cell, hnote]
  dsimp only
  rw [expressionCell, hparse]
  split
  · next h => cases h
  · next h => cases h
  · next n h => exact absurd (Except.ok.inj h) (hname n)
  · next e' _ h =>
    cases h
    rw [evaluated, heval]
    rfl

theorem projectedRow_null {r : Run} {files : FileIndex} {columns : List Value}
    {row projected : Row} {found : List String}
    (hprojected : r.projectedRow files columns row = .ok (projected, found)) {source : String}
    (hsource : .string source ∈ columns) {error : EvalError}
    (h : Unevaluable (r.scope files row none) row source error) :
    projected.projected.get? source = some .null ∧ cellWarning row source error ∈ found := by
  simp only [projectedRow, bind_eq_ok, Prod.exists] at hprojected
  obtain ⟨values, warnings, hcells, hprojected⟩ := hprojected
  cases hprojected
  have hall := cells_eq_ok hcells
  refine ⟨Keyed.find?_ofList ?_ fun v hv => ?_, ?_⟩
  · rw [← List.map_fst_zip (Nat.le_of_eq hall.length_eq), List.mem_map] at hsource
    obtain ⟨p, hp, hsource⟩ := hsource
    exact ⟨p.2, hsource ▸ hp⟩
  · obtain ⟨_, hcell⟩ := (List.forall₂_iff_zip.mp hall).2 hv
    cases h.cell_eq.symm.trans hcell
    rfl
  · exact subset_of_cells hcells hsource h.cell_eq List.mem_cons_self

/-! ## Groups -/

/-- A row with a key stands in a group under the same structural key. -/
theorem exists_group_of_mem {keyed : List ((String × Value) × Row)}
    (hkeys : ∀ p ∈ keyed, p.1.2.stableKey = .ok p.1.1) {p : (String × Value) × Row}
    (hp : p ∈ keyed) :
    ∃ group ∈ bucketed keyed, group.key.stableKey = .ok p.1.1 ∧ p.2 ∈ group.rows := by
  have hlabel := (mem_labels_newcomers List.not_mem_nil).mpr
    (List.mem_map_of_mem (f := fun q : (String × Value) × Row => q.1.1) hp)
  obtain ⟨q, hq, hsame⟩ := List.mem_map.mp hlabel
  refine ⟨groupOf keyed q, bucketed_eq keyed ▸ List.mem_map_of_mem hq, ?_, ?_⟩
  · exact hsame ▸ hkeys q (newcomers_subset hq)
  · exact List.mem_map.mpr ⟨p, List.mem_filter.mpr ⟨hp, decide_eq_true hsame.symm⟩, rfl⟩

/-! ## Summaries -/

/-- The warning about a summary. -/
def summaryWarning (column : Value) (error : EvalError) : String :=
  "summary " ++ column.keyText ++ ": " ++ error.message

section Summaries

variable {r : Run} {files : FileIndex} {columns values : List Value} {rows : List Row}
  {column : Value} {name : String}

theorem exists_of_mem_summarized {summaries : Keyed String} {entries : Entries}
    {warnings : List String}
    (h : r.summarized files columns rows summaries = .ok (entries, warnings))
    (hmem : (column, name) ∈ summaries) :
    ∃ values found v more, r.columnValues files columns rows column = .ok (values, found) ∧
      r.summaryOf files column name values = .ok (v, more) ∧ (column, v) ∈ entries ∧
      found ⊆ warnings ∧ more ⊆ warnings := by
  induction summaries generalizing entries warnings with
  | nil => cases hmem
  | cons summary summaries ih =>
    simp only [summarized, bind_eq_ok, Prod.exists] at h
    obtain ⟨values, found, hvalues, v, more, hv, entries', others, hrest, h⟩ := h
    cases h
    rcases List.mem_cons.mp hmem with rfl | hmem
    · refine ⟨values, found, v, more, hvalues, hv, List.mem_cons_self, ?_, ?_⟩
      · exact List.Subset.trans (List.subset_append_left found more)
          (List.subset_append_left _ others)
      · exact List.Subset.trans (List.subset_append_right found more)
          (List.subset_append_left _ others)
    · obtain ⟨values', found', v', more', hvalues', hv', hentry, hfound, hmore⟩ := ih hrest hmem
      exact ⟨values', found', v', more', hvalues', hv', List.mem_cons_of_mem _ hentry,
        List.Subset.trans hfound (List.subset_append_right _ others),
        List.Subset.trans hmore (List.subset_append_right _ others)⟩

/-- A summary is an expression, and has no value for those of its column. -/
inductive SummaryUnevaluable (r : Run) (files : FileIndex) (values : List Value) :
    String → EvalError → Prop
  | error {name : String} {e : Expr} {error : EvalError} : Summary.ofName? name = none →
      summaryExpression? r.query name = .ok (some e) →
        e.eval (r.summaryScope files values) = .error (.evaluation error) →
          SummaryUnevaluable r files values name error

/-- Of such a summary there is a warning, unless the name of the column cannot be written. -/
theorem SummaryUnevaluable.summaryOf_eq {error : EvalError}
    (h : SummaryUnevaluable r files values name error) :
    r.summaryOf files column name values = do
      column.checkWritable
      return (.null, [summaryWarning column error]) := by
  cases h with
  | @error e _ hname hexpression heval =>
    have hbind (f : Option Expr → Except Fault (Warned Value)) :
        (.ok (some e) >>= f) = f (some e) := rfl
    rw [summaryOf, hname]
    dsimp only
    rw [hexpression, hbind]
    dsimp only
    rw [heval]
    rfl

end Summaries

/-! ## Results -/

namespace Stages

variable {r : Run} {view : View}

/-- What has no value is null, and a warning in the result tells why. -/
structure Warns (x : Stages r view) : Prop where
  sortKey : ∀ row ∈ x.chosen, ∀ key ∈ view.sort, ∀ error,
    Unevaluable (r.scope r.files row none) row key.property error →
      r.HasCell r.files row key .null ∧
      cellWarning row key.property error ∈ x.result.diagnostics.warnings
  cell : ∀ row projected, (projected, row) ∈ x.rows.zip x.kept → ∀ source error,
    .string source ∈ x.columns → Unevaluable (r.scope r.files row none) row source error →
      projected.projected.get? source = some .null ∧
      cellWarning row source error ∈ x.result.diagnostics.warnings
  groupKey : ∀ row ∈ x.rows, ∀ key error, view.groupBy = some key →
    Unevaluable (r.projectedScope r.files row) row key.property error →
      (∃ groups group, x.result.groups = some groups ∧ group ∈ groups ∧ group.key = .null ∧
        row ∈ group.rows) ∧
      cellWarning row key.property error ∈ x.result.diagnostics.warnings
  summaryCell : ∀ row ∈ x.rows, ∀ source name error, (.string source, name) ∈ view.summaries →
    x.columns.any (·.sameKey (.string source)) = false →
      Unevaluable (r.projectedScope r.files row) row source error →
        cellWarning row source error ∈ x.result.diagnostics.warnings
  summary : ∀ column name values found error, (column, name) ∈ view.summaries →
    r.columnValues r.files x.columns x.rows column = .ok (values, found) →
      SummaryUnevaluable r r.files values name error →
        (∃ summaries, x.result.summaries = some summaries ∧ (column, .null) ∈ summaries) ∧
        summaryWarning column error ∈ x.result.diagnostics.warnings

section Subsets

variable (x : Stages r view)

theorem sortWarnings_subset : x.sortWarnings ⊆ x.result.diagnostics.warnings := by
  intro warning h
  exact List.mem_append_left _ (List.mem_append_left _ (List.mem_append_left _ h))

theorem cellWarnings_subset : x.cellWarnings ⊆ x.result.diagnostics.warnings := by
  intro warning h
  exact List.mem_append_left _ (List.mem_append_left _ (List.mem_append_right _ h))

theorem groupWarnings_subset : x.groupWarnings ⊆ x.result.diagnostics.warnings := by
  intro warning h
  exact List.mem_append_left _ (List.mem_append_right _ h)

theorem summaryWarnings_subset : x.summaryWarnings ⊆ x.result.diagnostics.warnings :=
  List.subset_append_right _ _

end Subsets

theorem warns_sortKey (x : Stages r view) {row : Row} (hrow : row ∈ x.chosen) {key : SortKey}
    (hkey : key ∈ view.sort) {error : EvalError}
    (h : Unevaluable (r.scope r.files row none) row key.property error) :
    r.HasCell r.files row key .null ∧
      cellWarning row key.property error ∈ x.result.diagnostics.warnings := by
  obtain ⟨values, pairs, hvalues, -, -⟩ := sorted_eq_ok x.sorted_eq
  obtain ⟨vs, found, -, hcells, hfound⟩ := exists_of_mem_forRows hvalues hrow
  have hsubset := subset_of_cells hcells (List.mem_map_of_mem hkey) h.cell_eq
  exact ⟨⟨_, h.cell_eq⟩, x.sortWarnings_subset (hfound (hsubset List.mem_cons_self))⟩

theorem warns_cell (x : Stages r view) {row projected : Row}
    (hrow : (projected, row) ∈ x.rows.zip x.kept) {source : String}
    (hsource : .string source ∈ x.columns) {error : EvalError}
    (h : Unevaluable (r.scope r.files row none) row source error) :
    projected.projected.get? source = some .null ∧
      cellWarning row source error ∈ x.result.diagnostics.warnings := by
  obtain ⟨other, found, -, hprojected, hfound⟩ :=
    exists_of_mem_forRows x.projected_eq (List.of_mem_zip hrow).2
  obtain ⟨_, hsame⟩ := mem_zip_forRows x.projected_eq hrow
  cases hprojected.symm.trans hsame
  obtain ⟨hnull, hwarning⟩ := projectedRow_null hprojected hsource h
  exact ⟨hnull, x.cellWarnings_subset (hfound hwarning)⟩

theorem warns_groupKey (x : Stages r view) {row : Row} (hrow : row ∈ x.rows) {key : SortKey}
    (hkey : view.groupBy = some key) {error : EvalError}
    (h : Unevaluable (r.projectedScope r.files row) row key.property error) :
    (∃ groups group, x.result.groups = some groups ∧ group ∈ groups ∧ group.key = .null ∧
        row ∈ group.rows) ∧
      cellWarning row key.property error ∈ x.result.diagnostics.warnings := by
  have hgrouped := x.grouped_eq
  rw [hkey] at hgrouped
  simp only [grouped, bind_eq_ok, Prod.exists] at hgrouped
  obtain ⟨keys, warnings, hkeys, _, -, hgrouped⟩ := hgrouped
  obtain ⟨hgroups, hwarnings⟩ := Prod.mk.inj (Except.ok.inj hgrouped)
  obtain ⟨p, found, hp, hrowKey, hfound⟩ := exists_of_mem_forRows hkeys hrow
  have hnull : groupKey (r.projectedScope r.files row) row (.string key.property) =
      .ok (("null", .null), [cellWarning row key.property error]) := by
    rw [groupKey, h.cell_eq]
    rfl
  cases hnull.symm.trans hrowKey
  have hstable : ∀ q ∈ keys.zip x.rows, q.1.2.stableKey = .ok q.1.1 := by
    intro q hq
    obtain ⟨_, hq⟩ := mem_zip_forRows hkeys hq
    exact (groupKey_eq_ok hq).2
  obtain ⟨group, hgroup, hgroupKey, hmem⟩ := exists_group_of_mem hstable hp
  refine ⟨⟨_, group, hgroups.symm, ?_, Value.eq_null_of_stableKey hgroupKey, hmem⟩, ?_⟩
  · exact (List.mergeSort_perm _ _).mem_iff.mpr hgroup
  · exact x.groupWarnings_subset (hwarnings ▸ hfound List.mem_cons_self)

theorem warns_summaryCell (x : Stages r view) {row : Row} (hrow : row ∈ x.rows)
    {source name : String} (hsummary : (.string source, name) ∈ view.summaries)
    (hcolumn : x.columns.any (·.sameKey (.string source)) = false) {error : EvalError}
    (h : Unevaluable (r.projectedScope r.files row) row source error) :
    cellWarning row source error ∈ x.result.diagnostics.warnings := by
  obtain ⟨values, found, v, more, hvalues, -, -, hfound, -⟩ :=
    exists_of_mem_summarized x.summarized_eq hsummary
  rw [columnValues, hcolumn] at hvalues
  obtain ⟨w, here, -, hcell, hhere⟩ := exists_of_mem_forRows hvalues hrow
  cases h.cell_eq.symm.trans hcell
  exact x.summaryWarnings_subset (hfound (hhere List.mem_cons_self))

theorem warns_summary (x : Stages r view) {column : Value} {name : String}
    {values : List Value} {found : List String} (hsummary : (column, name) ∈ view.summaries)
    (hvalues : r.columnValues r.files x.columns x.rows column = .ok (values, found))
    {error : EvalError} (h : SummaryUnevaluable r r.files values name error) :
    (∃ summaries, x.result.summaries = some summaries ∧ (column, .null) ∈ summaries) ∧
      summaryWarning column error ∈ x.result.diagnostics.warnings := by
  obtain ⟨values', found', v, more, hvalues', hv, hentry, -, hmore⟩ :=
    exists_of_mem_summarized x.summarized_eq hsummary
  cases hvalues.symm.trans hvalues'
  obtain ⟨_, -, hv⟩ := bind_eq_ok.mp (h.summaryOf_eq.symm.trans hv)
  cases hv
  refine ⟨⟨x.summaries, ?_, hentry⟩, x.summaryWarnings_subset (hmore List.mem_cons_self)⟩
  have hne : view.summaries.isEmpty = false :=
    List.isEmpty_eq_false_iff_exists_mem.mpr ⟨_, hsummary⟩
  rw [Stages.result, hne]
  rfl

theorem warns (x : Stages r view) : x.Warns where
  sortKey _ hrow _ hkey _ h := x.warns_sortKey hrow hkey h
  cell _ _ hrow _ _ hsource h := x.warns_cell hrow hsource h
  groupKey _ hrow _ _ hkey h := x.warns_groupKey hrow hkey h
  summaryCell _ hrow _ _ _ hsummary hcolumn h := x.warns_summaryCell hrow hsummary hcolumn h
  summary _ _ _ _ _ hsummary hvalues h := x.warns_summary hsummary hvalues h

end Stages

end Run

end NoteQuery
