/-
The order of documents does not matter.

Two runs of a view over the same documents in different orders are taken through their stages
side by side.  Documents under distinct paths have the same index; each document gives its row
or its error by itself, so the rows before sorting are the same but for their order; and sorting
forgets that order, because rows of which neither comes before the other have one path.  From
there on the runs agree, and what is left of the order of documents is that of the warnings that
arise while the cells of sort keys are computed.
-/
import NoteQuery.Proofs.RowOrder
import NoteQuery.Proofs.Stages

namespace NoteQuery

/-! ## Documents in another order -/

theorem Document.index_of_perm {docs docs' : List Document}
    (hpaths : (docs.map fun doc => doc.file.path).Nodup) (hperm : docs.Perm docs') :
    index docs = index docs' := by
  have hsorted : sortByPath docs = sortByPath docs' :=
    Sorting.mergeSort_eq_of_perm hpaths hperm
  rw [index, index, hsorted]

namespace Run

theorem sortErrors_of_perm {errors errors' : List (String × String)}
    (hpaths : (errors.map (·.1)).Nodup) (hperm : errors.Perm errors') :
    sortErrors errors = sortErrors errors' := by
  rw [sortErrors, sortErrors, Sorting.mergeSort_eq_of_perm hpaths hperm]

/-! ## Sorted rows -/

section Sorted

variable {r : Run} {files : FileIndex} {keys : List SortKey} {rows : List Row}
  {values : List (List Value)} {warnings : List String}

/-- The values of the sort key in rows. -/
def Column (r : Run) (files : FileIndex) (rows : List Row) (key : SortKey) (v : Value) : Prop :=
  ∃ row ∈ rows, r.HasCell files row key v

section Values

variable (hvalues : forRows (fun row => cells (r.scope files row none) row
  (keys.map fun key => .string key.property)) rows = .ok (values, warnings))
include hvalues

theorem hasCell_of_mem_zip {p : List Value × Row} (hp : p ∈ values.zip rows) :
    List.Forall₂ (r.HasCell files p.2) keys p.1 := by
  obtain ⟨found, hcells⟩ := mem_zip_forRows hvalues hp
  have hall := cells_eq_ok hcells
  rw [List.forall₂_map_left_iff] at hall
  exact hall

theorem column_of_mem_zip {p : List Value × Row} (hp : p ∈ values.zip rows) :
    List.Forall₂ (r.Column files rows) keys p.1 := by
  have hrow : p.2 ∈ rows := (List.of_mem_zip hp).2
  exact (hasCell_of_mem_zip hvalues hp).imp fun _ _ hcell => ⟨p.2, hrow, hcell⟩

end Values

/-- Sorting loses no row, and every row comes before those behind it. -/
theorem sorted_precedes {ordered : List Row}
    (hcolumns : ∀ key ∈ keys, Value.TotallyPreordered (r.Column files rows key))
    (hpaths : (rows.map Row.path).Nodup)
    (h : r.sorted files keys rows = .ok (ordered, warnings)) :
    ordered.Perm rows ∧ ordered.Pairwise fun a b => r.Precedes files a b keys := by
  obtain ⟨values, pairs, hvalues, hsort, rfl⟩ := sorted_eq_ok h
  have hranked := fun p hp => column_of_mem_zip (p := p) hvalues hp
  obtain ⟨pairs', hsort', hperm, hsorted⟩ :=
    Sorting.sort_inOrder (rowBefore_orders hcolumns) hranked
  obtain rfl : pairs' = pairs := Except.ok.inj (hsort'.symm.trans hsort)
  have hrows : (pairs'.map (·.2)).Perm rows := sorted_perm h
  refine ⟨hrows, List.pairwise_map.mpr ?_⟩
  have hdistinct : pairs'.Pairwise fun p q => p.2.path ≠ q.2.path := by
    have hnodup : ((pairs'.map (·.2)).map Row.path).Nodup := (hrows.map _).nodup_iff.mpr hpaths
    rwa [List.map_map, List.Nodup, List.pairwise_map] at hnodup
  refine (hsorted.and hdistinct).imp_of_mem ?_
  rintro p q hp hq ⟨hqp, hne⟩
  have hpz : p ∈ values.zip rows := hperm.mem_iff.mp hp
  have hqz : q ∈ values.zip rows := hperm.mem_iff.mp hq
  rcases path_eq_or_lt hcolumns (hranked p hpz) (hranked q hqz) hqp with heq | hlt
  · exact absurd heq hne
  · exact precedes_of_compare (hasCell_of_mem_zip hvalues hpz) (hasCell_of_mem_zip hvalues hqz) hlt

/-- Sorting forgets the order of rows, except in its warnings. -/
theorem sorted_of_perm {rows' ordered ordered' : List Row} {warnings' : List String}
    (hcolumns : ∀ key ∈ keys, Value.TotallyPreordered (r.Column files rows key))
    (hpaths : (rows.map Row.path).Nodup) (hperm : rows.Perm rows')
    (h : r.sorted files keys rows = .ok (ordered, warnings))
    (h' : r.sorted files keys rows' = .ok (ordered', warnings')) :
    ordered = ordered' ∧ warnings.Perm warnings' := by
  obtain ⟨values, pairs, hvalues, hsort, rfl⟩ := sorted_eq_ok h
  obtain ⟨values', pairs', hvalues', hsort', rfl⟩ := sorted_eq_ok h'
  obtain ⟨hpairs, hwarnings⟩ := forRows_perm hperm hvalues hvalues'
  refine ⟨?_, hwarnings⟩
  have hranked := fun p hp => column_of_mem_zip (p := p) hvalues hp
  have hnodup : ((values.zip rows).map fun p => p.2.path).Nodup := by
    rw [← rows_of_zip hvalues, List.map_map] at hpaths
    exact hpaths
  have horders := (rowBefore_orders hcolumns).mono hranked
  have hsame : Sorting.sort (rowBefore keys) (values.zip rows) =
      Sorting.sort (rowBefore keys) (values'.zip rows') := by
    refine Sorting.sort_eq_of_perm horders (fun _ hp => hp) ?_ hpairs
    intro p q hp hq hpq hqp
    rcases path_eq_or_lt hcolumns (hranked p hp) (hranked q hq) hqp with heq | hlt
    · exact List.inj_on_of_nodup_map hnodup hp hq heq
    · have hbefore : rowBefore keys p q = .ok true := by
        rw [rowBefore_eq]
        exact map_eq_ok.mpr ⟨.lt, hlt, rfl⟩
      rw [hbefore] at hpq
      cases hpq
  rw [hsort, hsort', Except.ok.injEq] at hsame
  rw [hsame]

end Sorted

/-! ## Two runs -/

section Documents

variable (r : Run) (docs : List Document)

theorem rowsOf_documents : rowsOf { r with documents := docs } = r.rowsOf :=
  rowsOf_congr rfl rfl

theorem summarized_documents : summarized { r with documents := docs } = r.summarized :=
  summarized_congr rfl (summaryOf_congr rfl rfl)

end Documents

/-- The row of a document that passed the filters of a view. -/
def Matches (r : Run) (view : View) (row : Row) : Prop :=
  ∃ doc ∈ r.documents, r.rowOf r.files (r.query.filtersOf view.name) doc = .ok (some row)

/-- The values of a sort key in the rows of a view. -/
def SortColumn (r : Run) (view : View) (key : SortKey) (v : Value) : Prop :=
  ∃ row, r.Matches view row ∧ r.HasCell r.files row key v

namespace Stages

variable {r : Run} {view : View} {docs : List Document}

theorem chosen_eq (x : Stages r view) :
    x.chosen = r.documents.filterMap (r.rowFrom? r.files (r.query.filtersOf view.name)) :=
  (rowsOf_eq_ok x.rowsOf_eq).1

theorem errors_eq (x : Stages r view) :
    x.errors = r.documents.filterMap (r.errorFrom? r.files (r.query.filtersOf view.name)) :=
  (rowsOf_eq_ok x.rowsOf_eq).2

theorem matches_of_mem_chosen (x : Stages r view) {row : Row} (h : row ∈ x.chosen) :
    r.Matches view row := by
  rw [chosen_eq, List.mem_filterMap] at h
  obtain ⟨doc, hdoc, hrow⟩ := h
  exact ⟨doc, hdoc, rowFrom?_eq_some_iff.mp hrow⟩

theorem column_preordered (x : Stages r view) {key : SortKey}
    (h : Value.TotallyPreordered (r.SortColumn view key)) :
    Value.TotallyPreordered (r.Column r.files x.chosen key) :=
  h.mono fun _ ⟨row, hrow, hcell⟩ => ⟨row, x.matches_of_mem_chosen hrow, hcell⟩

section Paths

variable (hpaths : (r.documents.map fun doc => doc.file.path).Nodup)
include hpaths

theorem nodup_chosen (x : Stages r view) : (x.chosen.map Row.path).Nodup := by
  rw [chosen_eq]
  exact nodup_paths_filterMap (fun _ _ h => path_of_rowFrom? h) hpaths

theorem nodup_errors (x : Stages r view) : (x.errors.map (·.1)).Nodup := by
  rw [errors_eq]
  exact nodup_paths_filterMap (fun _ _ h => path_of_errorFrom? h) hpaths

/-- The rows stand in the order of the sort keys and then of their paths. -/
theorem ordered_precedes (x : Stages r view)
    (hcolumns : ∀ key ∈ view.sort, Value.TotallyPreordered (r.SortColumn view key)) :
    x.ordered.Perm x.chosen ∧ x.ordered.Pairwise fun a b => r.Precedes r.files a b view.sort :=
  sorted_precedes (fun key hkey => x.column_preordered (hcolumns key hkey))
    (x.nodup_chosen hpaths) x.sorted_eq

variable (hperm : r.documents.Perm docs)
include hperm

theorem files_of_perm : files { r with documents := docs } = r.files :=
  (Document.index_of_perm hpaths hperm).symm

/-- Each document gives its row or its error by itself. -/
theorem chosen_perm (x : Stages r view) (y : Stages { r with documents := docs } view) :
    x.chosen.Perm y.chosen ∧ x.errors.Perm y.errors := by
  have hy := y.rowsOf_eq
  rw [files_of_perm hpaths hperm, rowsOf_documents] at hy
  obtain ⟨hchosen, herrors⟩ := rowsOf_eq_ok hy
  rw [x.chosen_eq, x.errors_eq, hchosen, herrors]
  exact ⟨hperm.filterMap _, hperm.filterMap _⟩

theorem ordered_eq (x : Stages r view) (y : Stages { r with documents := docs } view)
    (hcolumns : ∀ key ∈ view.sort, Value.TotallyPreordered (r.SortColumn view key)) :
    x.ordered = y.ordered ∧ x.sortWarnings.Perm y.sortWarnings := by
  have hsorted := y.sorted_eq
  rw [files_of_perm hpaths hperm] at hsorted
  exact sorted_of_perm (fun key hkey => x.column_preordered (hcolumns key hkey))
    (x.nodup_chosen hpaths) (chosen_perm hpaths hperm x y).1 x.sorted_eq hsorted

end Paths

/-- What two runs over the same documents have in common. -/
structure Agree (x : Stages r view) (y : Stages { r with documents := docs } view) : Prop where
  ordered : x.ordered = y.ordered
  columns : x.columns = y.columns
  rows : x.rows = y.rows
  groups : x.groups = y.groups
  summaries : x.summaries = y.summaries
  matched : x.chosen.length = y.chosen.length
  errors : sortErrors x.errors = sortErrors y.errors
  sortWarnings : x.sortWarnings.Perm y.sortWarnings
  cellWarnings : x.cellWarnings = y.cellWarnings
  groupWarnings : x.groupWarnings = y.groupWarnings
  summaryWarnings : x.summaryWarnings = y.summaryWarnings

/-- Behind sorting no stage sees the documents any more. -/
theorem agree (x : Stages r view) (y : Stages { r with documents := docs } view)
    (hpaths : (r.documents.map fun doc => doc.file.path).Nodup) (hperm : r.documents.Perm docs)
    (hcolumns : ∀ key ∈ view.sort, Value.TotallyPreordered (r.SortColumn view key)) :
    Agree x y := by
  have hfiles := files_of_perm hpaths hperm
  obtain ⟨hrows, hlost⟩ := chosen_perm hpaths hperm x y
  obtain ⟨hordered, hsortWarnings⟩ := ordered_eq hpaths hperm x y hcolumns
  have hkept : x.kept = y.kept := by
    have := x.limited_eq
    rw [hordered, y.limited_eq] at this
    exact (Except.ok.inj this).symm
  have hcolumnsOf : r.columnsOf view y.kept = .ok y.columns := y.columnsOf_eq
  rw [← hkept, x.columnsOf_eq, Except.ok.injEq] at hcolumnsOf
  have hprojected : forRows (r.projectedRow _ y.columns) y.kept = .ok (y.rows, y.cellWarnings) :=
    y.projected_eq
  rw [hfiles, ← hkept, ← hcolumnsOf, x.projected_eq, Except.ok.injEq, Prod.mk.injEq] at hprojected
  have hgrouped : r.grouped _ view.groupBy y.rows = .ok (y.groups, y.groupWarnings) :=
    y.grouped_eq
  rw [hfiles, ← hprojected.1, x.grouped_eq, Except.ok.injEq, Prod.mk.injEq] at hgrouped
  have hsummarized := y.summarized_eq
  rw [hfiles, summarized_documents, ← hcolumnsOf, ← hprojected.1, x.summarized_eq,
    Except.ok.injEq, Prod.mk.injEq] at hsummarized
  exact {
    ordered := hordered
    columns := hcolumnsOf
    rows := hprojected.1
    groups := hgrouped.1
    summaries := hsummarized.1
    matched := hrows.length_eq
    errors := sortErrors_of_perm (x.nodup_errors hpaths) hlost
    sortWarnings := hsortWarnings
    cellWarnings := hprojected.2
    groupWarnings := hgrouped.2
    summaryWarnings := hsummarized.2 }

end Stages

/-- The result of a query does not depend on the order of the documents.  Before they are cut to
the limit, the rows stand in the order of the sort keys and then of their paths; and everything
in the results is the same, but for the order of the warnings. -/
theorem result_of_perm {r : Run} {docs : List Document} {name : Option String} {view : View}
    {res res' : Result} (hpaths : (r.documents.map fun doc => doc.file.path).Nodup)
    (hperm : r.documents.Perm docs) (hview : viewOf r.query name = .ok view)
    (hcolumns : ∀ key ∈ view.sort, Value.TotallyPreordered (r.SortColumn view key))
    (h : r.result name = .ok res) (h' : result { r with documents := docs } name = .ok res') :
    (∃ (x : Stages r view) (y : Stages { r with documents := docs } view),
      x.result = res ∧ y.result = res' ∧ x.ordered = y.ordered ∧ x.ordered.Perm x.chosen ∧
      x.ordered.Pairwise fun a b => r.Precedes r.files a b view.sort) ∧
    res.columns = res'.columns ∧ res.rows = res'.rows ∧ res.groups = res'.groups ∧
    res.summaries = res'.summaries ∧ res.stats = res'.stats ∧
    res.diagnostics.errors = res'.diagnostics.errors ∧
    res.diagnostics.warnings.Perm res'.diagnostics.warnings := by
  obtain ⟨_, hview', x, rfl⟩ := result_eq_ok.mp h
  obtain rfl := Except.ok.inj (hview'.symm.trans hview)
  obtain ⟨_, hview'', y, rfl⟩ := result_eq_ok.mp h'
  obtain rfl := Except.ok.inj (hview''.symm.trans hview)
  have hagree := x.agree y hpaths hperm hcolumns
  obtain ⟨hordered, hprecedes⟩ := x.ordered_precedes hpaths hcolumns
  refine ⟨⟨x, y, rfl, rfl, hagree.ordered, hordered, hprecedes⟩, hagree.columns, hagree.rows,
    hagree.groups, ?_, ?_, hagree.errors, ?_⟩
  · rw [Stages.result, Stages.result, hagree.summaries]
  · rw [Stages.result, Stages.result, hagree.matched, hperm.length_eq]
  · show (x.sortWarnings ++ x.cellWarnings ++ x.groupWarnings ++ x.summaryWarnings).Perm
      (y.sortWarnings ++ y.cellWarnings ++ y.groupWarnings ++ y.summaryWarnings)
    rw [hagree.cellWarnings, hagree.groupWarnings, hagree.summaryWarnings]
    exact ((hagree.sortWarnings.append_right _).append_right _).append_right _

/-- A document of which nothing is known but its path and a rank. -/
def rankedDocument (path : String) (rank : Int) : Document where
  note := [(.string "rank", .int rank)]
  file := { name := path, path }

/-- A view by falling rank of documents whose paths are in the order of rising ranks. -/
def twoRanks : Run where
  query := {
    spec := {
      views := [{
        name := "ranks"
        sort := [{ property := "rank", direction := .falling }]
        columns := some ["rank"] }] }
    strict := false
    globalFilter := none
    viewFilters := []
    formulas := []
    formulaOrder := []
    summaries := [] }
  documents := [rankedDocument "a" 1, rankedDocument "b" 2]
  now := default
  library := .empty

theorem twoRanks_column {view : View} {key : SortKey} {v : Value}
    (hview : viewOf twoRanks.query none = .ok view) (hkey : key ∈ view.sort)
    (h : twoRanks.SortColumn view key v) : ∃ k : Int, v = .int k := by
  cases hview
  obtain rfl := List.mem_singleton.mp hkey
  obtain ⟨row, ⟨doc, hdoc, hrow⟩, ⟨warnings, hcell⟩⟩ := h
  simp only [twoRanks, List.mem_cons, List.not_mem_nil, or_false] at hdoc
  rcases hdoc with rfl | rfl
  · cases hrow
    cases hcell
    exact ⟨1, rfl⟩
  · cases hrow
    cases hcell
    exact ⟨2, rfl⟩

theorem result_of_perm_twoRanks :
    ∃ res res', twoRanks.result none = .ok res ∧
      result { twoRanks with documents := twoRanks.documents.reverse } none = .ok res' ∧
      res.rows.map Row.path = ["b", "a"] ∧ res.rows = res'.rows := by
  obtain ⟨res, h⟩ : ∃ res, twoRanks.result none = .ok res := ⟨_, rfl⟩
  obtain ⟨res', h'⟩ : ∃ res',
      result { twoRanks with documents := twoRanks.documents.reverse } none = .ok res' := ⟨_, rfl⟩
  have hpaths : (twoRanks.documents.map fun doc => doc.file.path).Nodup := by decide
  have hall := result_of_perm hpaths (List.reverse_perm _).symm rfl
    (fun key hkey => Value.totallyPreordered_int.mono fun v hv => twoRanks_column rfl hkey hv) h h'
  refine ⟨res, res', h, h', ?_, hall.2.2.1⟩
  cases h
  rfl

end Run

end NoteQuery
