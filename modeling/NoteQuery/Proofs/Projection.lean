/-
One column more.

What a reference gives for a row does not depend on the cells of the row, unless the reference is an
expression that looks at them by their name (`cell_projected`).  So the values that are grouped and
summarized can be traced back to the rows before they had cells, whether they are read off the cells
or computed anew (`columnValues_eq_ok`), and a further column of a view changes nothing but the
cells under it (`result_withColumn`).
-/
import NoteQuery.Proofs.Coincidence
import NoteQuery.Proofs.Conservation
import NoteQuery.Proofs.Grouping

namespace NoteQuery

/-! ## Some of the cells -/

/-- The row with no other cells than those under the columns. -/
def Row.only (columns : List Value) (row : Row) : Row :=
  { row with projected := columns.filterMap fun c => (row.projected.find? c).map (c, ·) }

theorem Row.only_eq_only {columns : List Value} {row row' : Row}
    (hrow : row'.withoutColumns = row.withoutColumns)
    (hcells : ∀ column ∈ columns, row'.projected.find? column = row.projected.find? column) :
    row'.only columns = row.only columns := by
  obtain ⟨note, file, formula, projected⟩ := row
  obtain ⟨note', file', formula', projected'⟩ := row'
  cases hrow
  simp only [only, mk.injEq, true_and]
  refine List.filterMap_congr fun column hcolumn => ?_
  rw [hcells column hcolumn]

/-- The group with other rows in the places of its own. -/
def Group.mapRows (f : Row → Row) (group : Group) : Group :=
  { group with rows := group.rows.map f }

namespace Run

variable {r : Run} {files : FileIndex}

/-! ## References to cells -/

/-- The reference is an expression with the name in it. -/
def Mentions (reference : Value) (name : String) : Prop :=
  ∃ source e, reference = .string source ∧ Expr.parse source = .ok e ∧ name ∈ e.names

section Cells

variable (row : Row) (cells : Entries)

theorem part?_projectedScope {name : String} (hname : name ≠ "projected") :
    (r.projectedScope files { row with projected := cells }).part? name =
      (r.scope files row none).part? name := by
  unfold Scope.part?
  split <;> first | rfl | contradiction

theorem agree_projectedScope {names : List String} (hnames : "projected" ∉ names) :
    (r.projectedScope files { row with projected := cells }).Agree names
      (r.scope files row none) where
  strict := rfl
  now := rfl
  library := rfl
  files := rfl
  found name hname := by
    have hne : name ≠ "projected" := fun h => hnames (h ▸ hname)
    rw [Scope.find?, Scope.find?, part?_projectedScope row cells hne]
    rfl

theorem evaluated_projected (source : String) {e : Expr} (h : "projected" ∉ e.names) :
    evaluated (r.projectedScope files { row with projected := cells })
        { row with projected := cells } source e =
      evaluated (r.scope files row none) row source e := by
  rw [evaluated, evaluated, Expr.eval_of_names (agree_projectedScope row cells h)]
  rfl

/-- What a reference gives does not depend on the cells of the row that it does not mention. -/
theorem cell_projected {reference : Value} (h : ¬ Mentions reference "projected") :
    cell (r.projectedScope files { row with projected := cells }) { row with projected := cells }
        reference =
      cell (r.scope files row none) row reference := by
  unfold cell
  dsimp only
  cases row.note.find? reference with
  | some v => rfl
  | none =>
    cases reference with
    | string source =>
      change expressionCell _ _ source = expressionCell _ _ source
      unfold expressionCell
      cases hparse : Expr.parse source with
      | error e => cases e <;> rfl
      | ok e =>
        have hnames : "projected" ∉ e.names := fun he => h ⟨source, e, rfl, hparse, he⟩
        cases e with
        | name n =>
          have hne : n ≠ "projected" := by
            rintro rfl
            exact hnames (List.mem_singleton_self _)
          dsimp only
          rw [part?_projectedScope row cells hne, evaluated_projected row cells source hnames]
        | _ => exact evaluated_projected row cells source hnames
    | _ => rfl

end Cells

/-! ## Projected rows -/

/-- The second row is the first with values in the columns. -/
def ProjectsRow (r : Run) (files : FileIndex) (columns : List Value) (row row' : Row) : Prop :=
  ∃ found, r.projectedRow files columns row = .ok (row', found)

theorem ProjectsRow.exists_cells {columns : List Value} {row row' : Row}
    (h : r.ProjectsRow files columns row row') :
    ∃ cells, row' = { row with projected := cells } := by
  obtain ⟨found, h⟩ := h
  simp only [projectedRow, bind_eq_ok, Prod.exists] at h
  obtain ⟨values, warnings, -, h⟩ := h
  cases h
  exact ⟨_, rfl⟩

theorem ProjectsRow.find?_eq {columns : List Value} {row row' : Row} {text : String}
    (h : r.ProjectsRow files columns row row') (htext : .string text ∈ columns) :
    ∃ v found, cell (r.scope files row none) row (.string text) = .ok (v, found) ∧
      row'.projected.find? (.string text) = some v := by
  obtain ⟨_, h⟩ := h
  simp only [projectedRow, bind_eq_ok, Prod.exists] at h
  obtain ⟨values, warnings, hcells, h⟩ := h
  cases h
  have hall := cells_eq_ok hcells
  rw [← List.map_fst_zip (Nat.le_of_eq hall.length_eq), List.mem_map] at htext
  obtain ⟨⟨column, v⟩, hv, rfl⟩ := htext
  have hcell {w : Value} (hw : (.string text, w) ∈ columns.zip values) :=
    (List.forall₂_iff_zip.mp hall).2 hw
  obtain ⟨found, hfound⟩ := hcell hv
  refine ⟨v, found, hfound, Keyed.find?_ofList ⟨v, hv⟩ fun w hw => ?_⟩
  obtain ⟨_, hother⟩ := hcell hw
  exact congrArg Prod.fst (Except.ok.inj (hother.symm.trans hfound))

theorem forRows_congr {α : Type} {f g : Row → Except Fault (Warned α)} {kept rows : List Row}
    (h : List.Forall₂ (fun row row' => f row' = g row) kept rows) :
    forRows f rows = forRows g kept := by
  induction h with
  | nil => rfl
  | cons hrow _ ih => rw [forRows, forRows, hrow, ih]

theorem forRows_eq_map {α : Type} {f : Row → Except Fault (Warned α)} {g : Row → α}
    {kept rows : List Row}
    (h : List.Forall₂ (fun row row' => ∃ found, f row = .ok (g row', found)) kept rows) :
    ∃ found, forRows f kept = .ok (rows.map g, found) := by
  induction h with
  | nil => exact ⟨[], rfl⟩
  | cons hrow _ ih =>
    obtain ⟨found, hrow⟩ := hrow
    obtain ⟨more, ih⟩ := ih
    exact ⟨found ++ more, by rw [forRows, hrow, ih]; rfl⟩

section Rows

variable {columns : List Value} {kept rows : List Row}
  (hrows : List.Forall₂ (r.ProjectsRow files columns) kept rows)
include hrows

/-- What is computed in rows alike with and without cells is the same as before there were any. -/
theorem forRows_projected {α : Type} {f g : Row → Except Fault (Warned α)}
    (h : ∀ (row : Row) (cells : Entries), f { row with projected := cells } = g row) :
    forRows f rows = forRows g kept := by
  refine forRows_congr (hrows.imp fun row row' hrow => ?_)
  obtain ⟨cells, rfl⟩ := hrow.exists_cells
  exact h row cells

/-- The values of a column that does not mention cells are computed from the rows before they had
any, whether or not it is one of the columns of the rows. -/
theorem columnValues_eq_ok {column : Value} {values : List Value} {warnings : List String}
    (hmentions : ¬ Mentions column "projected")
    (htexts : ∀ c ∈ columns, ∃ text, c = .string text)
    (h : r.columnValues files columns rows column = .ok (values, warnings)) :
    ∃ found, forRows (fun row => cell (r.scope files row none) row column) kept =
      .ok (values, found) := by
  unfold columnValues at h
  split at h
  · next hany =>
    obtain ⟨c, hc, hsame⟩ := List.any_eq_true.mp hany
    obtain ⟨text, rfl⟩ := htexts c hc
    obtain rfl := Value.string_sameKey.mp hsame
    cases h
    refine forRows_eq_map (hrows.imp fun row row' hrow => ?_)
    obtain ⟨v, found, hcell, hfound⟩ := hrow.find?_eq hc
    exact ⟨found, by rw [hcell, hfound]; rfl⟩
  · have hcells : forRows (fun row => cell (r.projectedScope files row) row column) rows =
        forRows (fun row => cell (r.scope files row none) row column) kept :=
      forRows_projected hrows fun row cells => cell_projected row cells hmentions
    exact ⟨warnings, hcells.symm.trans h⟩

end Rows

/-! ## Groups and summaries -/

section MapRows

variable (f : Row → Row)

theorem addToGroup_mapRows (structural : String) (key : Value) (row : Row)
    (buckets : List (String × Group)) :
    (addToGroup structural key row buckets).map (Prod.map id (Group.mapRows f)) =
      addToGroup structural key (f row) (buckets.map (Prod.map id (Group.mapRows f))) := by
  induction buckets with
  | nil => rfl
  | cons bucket buckets ih =>
    obtain ⟨k, group⟩ := bucket
    rw [List.map_cons, Prod.map_apply, id, addToGroup, addToGroup]
    split
    · rw [List.map_cons, Prod.map_apply, Group.mapRows, List.map_append]
      rfl
    · rw [List.map_cons, ih]
      rfl

/-- In which group a row is does not depend on the row. -/
theorem bucketed_mapRows (keyed : List ((String × Value) × Row)) :
    (bucketed keyed).map (Group.mapRows f) = bucketed (keyed.map (Prod.map id f)) := by
  have hfold (buckets : List (String × Group)) :
      (keyed.foldl (fun buckets p => addToGroup p.1.1 p.1.2 p.2 buckets) buckets).map
          (Prod.map id (Group.mapRows f)) =
        (keyed.map (Prod.map id f)).foldl
          (fun buckets p => addToGroup p.1.1 p.1.2 p.2 buckets)
          (buckets.map (Prod.map id (Group.mapRows f))) := by
    induction keyed generalizing buckets with
    | nil => rfl
    | cons p keyed ih =>
      rw [List.foldl_cons, ih, addToGroup_mapRows]
      rfl
  have hgroups := congrArg (List.map Prod.snd) (hfold [])
  rw [List.map_map] at hgroups
  rw [bucketed, List.map_map]
  exact hgroups

theorem sortGroups_mapRows (direction : SortDirection) (groups : List Group) :
    (sortGroups direction groups).map (Group.mapRows f) =
      sortGroups direction (groups.map (Group.mapRows f)) := by
  rw [sortGroups_eq, sortGroups_eq]
  exact List.map_mergeSort fun _ _ _ _ => rfl

end MapRows

section Runs

variable {columns columns' : List Value} {kept rows rows' : List Row}
  (hrows : List.Forall₂ (r.ProjectsRow files columns) kept rows)
  (hrows' : List.Forall₂ (r.ProjectsRow files columns') kept rows')
include hrows hrows'

/-- Rows with different cells come into the same groups. -/
theorem grouped_mapRows {groupBy : Option SortKey} {groups groups' : Option (List Group)}
    {warnings warnings' : List String} {f : Row → Row} (hf : rows'.map f = rows.map f)
    (hmentions : ∀ key ∈ groupBy, ¬ Mentions (.string key.property) "projected")
    (h : r.grouped files groupBy rows = .ok (groups, warnings))
    (h' : r.grouped files groupBy rows' = .ok (groups', warnings')) :
    groups'.map (List.map (Group.mapRows f)) = groups.map (List.map (Group.mapRows f)) := by
  cases groupBy with
  | none =>
    cases h
    cases h'
    rfl
  | some key =>
    have hkey (row : Row) (cells : Entries) :
        groupKey (r.projectedScope files { row with projected := cells })
            { row with projected := cells } (.string key.property) =
          groupKey (r.scope files row none) row (.string key.property) := by
      rw [groupKey, groupKey, cell_projected row cells (hmentions key rfl)]
    simp only [grouped, bind_eq_ok, Prod.exists] at h h'
    obtain ⟨keys, found, hkeys, _, -, h⟩ := h
    obtain ⟨keys', found', hkeys', _, -, h'⟩ := h'
    rw [forRows_projected hrows hkey] at hkeys
    rw [forRows_projected hrows' hkey, hkeys] at hkeys'
    cases hkeys'
    cases h
    cases h'
    rw [Option.map_some, Option.map_some, sortGroups_mapRows, sortGroups_mapRows,
      bucketed_mapRows, bucketed_mapRows, ← List.zip_map_right, ← List.zip_map_right, hf]

/-- Rows with different cells have the same summaries. -/
theorem summarized_of_projects (htexts : ∀ c ∈ columns, ∃ text, c = .string text)
    (htexts' : ∀ c ∈ columns', ∃ text, c = .string text) {summaries : Keyed String}
    (hmentions : ∀ c ∈ Keyed.keys summaries, ¬ Mentions c "projected")
    {entries entries' : Entries} {warnings warnings' : List String}
    (h : r.summarized files columns rows summaries = .ok (entries, warnings))
    (h' : r.summarized files columns' rows' summaries = .ok (entries', warnings')) :
    entries' = entries := by
  induction summaries generalizing entries entries' warnings warnings' with
  | nil =>
    cases h
    cases h'
    rfl
  | cons summary summaries ih =>
    obtain ⟨hmention, hmentions⟩ := List.forall_mem_cons.mp hmentions
    simp only [summarized, bind_eq_ok, Prod.exists] at h h'
    obtain ⟨values, found, hvalues, v, more, hv, rest, others, hrest, h⟩ := h
    obtain ⟨values', found', hvalues', v', more', hv', rest', others', hrest', h'⟩ := h'
    obtain ⟨_, hcells⟩ := columnValues_eq_ok hrows hmention htexts hvalues
    obtain ⟨_, hcells'⟩ := columnValues_eq_ok hrows' hmention htexts' hvalues'
    obtain rfl : values' = values := (Prod.mk.inj (Except.ok.inj (hcells'.symm.trans hcells))).1
    obtain rfl : v' = v := (Prod.mk.inj (Except.ok.inj (hv'.symm.trans hv))).1
    obtain rfl := ih hmentions hrest hrest'
    cases h
    cases h'
    rfl

/-- What is under the columns that both have is the same in the rows. -/
theorem map_only_of_projects {names : List String} (hnames : names.map .string ⊆ columns)
    (hnames' : names.map .string ⊆ columns') :
    rows'.map (Row.only (names.map .string)) = rows.map (Row.only (names.map .string)) := by
  induction hrows generalizing rows' with
  | nil =>
    cases hrows'
    rfl
  | cons hrow _ ih =>
    cases hrows' with
    | cons hrow' hrows' =>
      rw [List.map_cons, List.map_cons, ih hrows']
      congr 1
      obtain ⟨cells, hcells⟩ := hrow.exists_cells
      obtain ⟨cells', hcells'⟩ := hrow'.exists_cells
      refine Row.only_eq_only (by rw [hcells, hcells']; rfl) fun column hcolumn => ?_
      obtain ⟨text, -, rfl⟩ := List.mem_map.mp hcolumn
      obtain ⟨v, _, hv, hfound⟩ := hrow.find?_eq (hnames hcolumn)
      obtain ⟨v', _, hv', hfound'⟩ := hrow'.find?_eq (hnames' hcolumn)
      obtain rfl : v' = v := (Prod.mk.inj (Except.ok.inj (hv'.symm.trans hv))).1
      rw [hfound, hfound']

end Runs

/-! ## Views with further columns -/

/-- The run with other columns in the views of a name. -/
def withColumns (r : Run) (name : String) (columns : List String) : Run :=
  { r with query := { r.query with spec := { r.query.spec with
      views := r.query.spec.views.map fun view =>
        if view.name = name then { view with columns := some columns } else view } } }

theorem viewOf_withColumns {name : Option String} {view : View} (columns : List String)
    (h : viewOf r.query name = .ok view) :
    viewOf (r.withColumns view.name columns).query name =
      .ok { view with columns := some columns } := by
  have hviews : (r.withColumns view.name columns).query.spec.views =
      r.query.spec.views.map fun v =>
        if v.name = view.name then { v with columns := some columns } else v := rfl
  rw [viewOf_map (fun v => ?_) hviews h, if_pos rfl]
  split <;> rfl

theorem columnsOf_of_named {view : View} {names : List String} {kept : List Row}
    (hnames : view.columns = some names) (hne : names ≠ []) :
    r.columnsOf view kept = .ok (names.map .string) := by
  rw [columnsOf, hnames, Option.getD_some]
  split
  · exact absurd rfl hne
  · exact absurd rfl hne
  · rfl

/-- A further column of a view changes nothing but the cells under it: not the rows or their order,
not the cells under other columns, not the groups, counts, errors or summaries, even if it is
itself summarized.  Only what is grouped or summarized must not look at the cells of rows. -/
theorem result_withColumn {name : Option String} {view : View} {before after : List String}
    {column : String} {res res' : Result} (hview : viewOf r.query name = .ok view)
    (hcolumns : view.columns = some (before ++ after)) (hne : before ++ after ≠ [])
    (hgroup : ∀ key ∈ view.groupBy, ¬ Mentions (.string key.property) "projected")
    (hsummaries : ∀ c ∈ Keyed.keys view.summaries, ¬ Mentions c "projected")
    (h : r.result name = .ok res)
    (h' : (r.withColumns view.name (before ++ column :: after)).result name = .ok res') :
    res.columns = (before ++ after).map .string ∧
    res'.columns = (before ++ column :: after).map .string ∧
    res'.rows.map (Row.only res.columns) = res.rows.map (Row.only res.columns) ∧
    res'.groups.map (List.map (Group.mapRows (Row.only res.columns))) =
      res.groups.map (List.map (Group.mapRows (Row.only res.columns))) ∧
    res'.stats = res.stats ∧ res'.diagnostics.errors = res.diagnostics.errors ∧
    res'.summaries = res.summaries := by
  obtain ⟨_, hfound, x, rfl⟩ := result_eq_ok.mp h
  obtain rfl := Except.ok.inj (hview.symm.trans hfound)
  obtain ⟨_, hfound', y, rfl⟩ := result_eq_ok.mp h'
  obtain rfl := Except.ok.inj (hfound'.symm.trans (viewOf_withColumns _ hview))
  obtain ⟨hchosen, herrors, hordered⟩ := x.ordered_eq_of_views y rfl rfl
  have hkept : y.kept = x.kept := by
    have hlimited := y.limited_eq
    rw [hordered] at hlimited
    exact Except.ok.inj (hlimited.symm.trans x.limited_eq)
  have hx : x.columns = (before ++ after).map .string :=
    Except.ok.inj (x.columnsOf_eq.symm.trans (columnsOf_of_named hcolumns hne))
  have hy : y.columns = (before ++ column :: after).map .string :=
    Except.ok.inj (y.columnsOf_eq.symm.trans
      (columnsOf_of_named rfl (List.append_ne_nil_of_right_ne_nil _ (List.cons_ne_nil _ _))))
  have hrows : List.Forall₂ (r.ProjectsRow r.files x.columns) x.kept x.rows :=
    forRows_forall₂ x.projected_eq
  have hrows' : List.Forall₂ (r.ProjectsRow r.files y.columns) x.kept y.rows :=
    hkept ▸ forRows_forall₂ y.projected_eq
  have hsub : (before ++ after).map Value.string ⊆ y.columns := by
    rw [hy]
    exact (((List.sublist_cons_self column after).append_left before).map _).subset
  have hmap : y.rows.map (Row.only x.columns) = x.rows.map (Row.only x.columns) := by
    rw [hx]
    exact map_only_of_projects hrows hrows' (hx ▸ List.Subset.refl _) hsub
  have htexts {names : List String} : ∀ c ∈ names.map Value.string, ∃ text, c = .string text :=
    fun c hc => have ⟨text, _, htext⟩ := List.mem_map.mp hc; ⟨text, htext.symm⟩
  have hcongr : (r.withColumns view.name (before ++ column :: after)).summarized = r.summarized :=
    summarized_congr rfl (summaryOf_congr rfl rfl)
  have hsummarized := y.summarized_eq
  rw [hcongr] at hsummarized
  have hgroups := grouped_mapRows hrows hrows' hmap hgroup x.grouped_eq y.grouped_eq
  have hsame := summarized_of_projects hrows hrows' (hx ▸ htexts) (hy ▸ htexts) hsummaries
    x.summarized_eq hsummarized
  refine ⟨hx, hy, hmap, hgroups, ?_, ?_, ?_⟩
  · rw [Stages.result, Stages.result, hchosen]
    rfl
  · rw [Stages.result, Stages.result, herrors]
  · rw [Stages.result, Stages.result, hsame]

/-- A document about a book. -/
def bookDocument (path : String) (shelf pages : Int) : Document where
  note := [(.string "shelf", .int shelf), (.string "pages", .int pages)]
  file := { name := path, path }

/-- A view by shelves, which counts the different numbers of pages. -/
def shelvesView : View where
  name := "shelves"
  columns := some ["shelf"]
  groupBy := some { property := "shelf" }
  summaries := [(.string "pages * 2", "unique")]

/-- Books by their shelves. -/
def bookshelves : Run where
  query := {
    spec := { views := [shelvesView] }
    strict := true
    globalFilter := none
    viewFilters := []
    formulas := []
    formulaOrder := []
    summaries := [] }
  documents := [bookDocument "a" 1 3, bookDocument "b" 2 4, bookDocument "c" 1 4]
  now := default
  library := .empty

/-- The summary of a result that has one only, if it is an integer. -/
def soleSummary? (res : Result) : Option (String × Int) :=
  match res.summaries with
  | some [(.string column, .number (.int n))] => some (column, n)
  | _ => none

theorem summaries_of_soleSummary? {res : Result} {column : String} {n : Int}
    (h : soleSummary? res = some (column, n)) :
    res.summaries = some [(.string column, .int n)] := by
  unfold soleSummary? at h
  split at h
  · next hsums =>
    cases h
    exact hsums
  · cases h

theorem result_withColumn_bookshelves :
    ∃ res res', bookshelves.result none = .ok res ∧
      (bookshelves.withColumns "shelves" ["shelf", "pages * 2"]).result none = .ok res' ∧
      res'.columns = ["shelf", "pages * 2"].map .string ∧
      res'.rows.map (Row.only res.columns) = res.rows.map (Row.only res.columns) ∧
      res.summaries = some [(.string "pages * 2", .int 2)] ∧
      res'.summaries = res.summaries := by
  have hrun : soleSummary? <$> bookshelves.result none = .ok (some ("pages * 2", 2)) := by
    decide +kernel
  have hrun' : (·.stats.matchedRows) <$>
      (bookshelves.withColumns "shelves" ["shelf", "pages * 2"]).result none = .ok 3 := by
    decide +kernel
  obtain ⟨res, h, hsums⟩ := map_eq_ok.mp hrun
  obtain ⟨res', h', -⟩ := map_eq_ok.mp hrun'
  have hshelf : Expr.parse "shelf" = .ok (.name "shelf") := by decide +kernel
  have hpages : Expr.parse "pages * 2" =
      .ok (.binary .multiply (.name "pages") (.literal (.number (.int 2)) "2")) := by
    decide +kernel
  have hgroup : ¬ Mentions (.string "shelf") "projected" := by
    rintro ⟨source, e, hsource, hparse, hname⟩
    cases hsource
    cases hshelf.symm.trans hparse
    exact absurd hname (by decide)
  have hsummary : ¬ Mentions (.string "pages * 2") "projected" := by
    rintro ⟨source, e, hsource, hparse, hname⟩
    cases hsource
    cases hpages.symm.trans hparse
    exact absurd hname (by decide)
  have hview : viewOf bookshelves.query none = .ok shelvesView := rfl
  have hcolumns : shelvesView.columns = some (["shelf"] ++ []) := rfl
  have hgroups : ∀ key ∈ shelvesView.groupBy, ¬ Mentions (.string key.property) "projected" := by
    rintro key ⟨⟩
    exact hgroup
  have hsummaries : ∀ c ∈ Keyed.keys shelvesView.summaries, ¬ Mentions c "projected" :=
    List.forall_mem_singleton.mpr hsummary
  obtain ⟨-, hadded, hrows, -, -, -, hsame⟩ :=
    result_withColumn hview hcolumns (List.cons_ne_nil _ _) hgroups hsummaries h h'
  exact ⟨res, res', h, h', hadded, hrows, summaries_of_soleSummary? hsums, hsame⟩

end Run

end NoteQuery
