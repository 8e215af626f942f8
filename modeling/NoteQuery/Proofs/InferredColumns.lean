/-
Columns that no one named.

Where neither the view nor the query names columns, they are found in the rows: the name of the
file, the properties of the notes, and the formulas.  `Inferred` says of such columns what they are,
without going through the rows: none is missing, none is there twice, and nothing else is there but
the path of the file, which is put in where otherwise the name would stand alone
(`inferred_inferredColumns`).

The rows are gone through in the order of their paths, whatever order the view gives them, so two
views that return the same rows under distinct paths have the same columns (`columns_inferred`).
-/
import NoteQuery.Proofs.Conservation
import NoteQuery.Proofs.NameOrder

namespace NoteQuery

/-- The path of a row and its note: all of it that shows in columns which are inferred. -/
def Row.pathAndNote (row : Row) : String × Entries :=
  (row.path, row.note)

namespace Run

variable {rows rows' : List Row} {names : List Value}

/-! ## New keys -/

theorem addNew_append (seen keys more : List Value) :
    addNew seen (keys ++ more) = addNew (addNew seen keys) more := by
  induction keys generalizing seen with
  | nil => rfl
  | cons key keys ih => rw [List.cons_append, addNew, addNew, ih]

/-- Behind the keys that were seen stand some of the others, in their order. -/
theorem exists_addNew (seen keys : List Value) :
    ∃ fresh, addNew seen keys = seen ++ fresh ∧ fresh.Sublist keys := by
  induction keys generalizing seen with
  | nil => exact ⟨[], (List.append_nil seen).symm, .slnil⟩
  | cons key keys ih =>
    rw [addNew]
    split
    · obtain ⟨fresh, hfresh, hsub⟩ := ih seen
      exact ⟨fresh, hfresh, hsub.cons key⟩
    · obtain ⟨fresh, hfresh, hsub⟩ := ih (seen ++ [key])
      exact ⟨key :: fresh, by rw [hfresh, List.append_assoc]; rfl, hsub.cons_cons key⟩

/-- The key has a column: itself or another spelling of it. -/
def HasColumn (columns : List Value) (key : Value) : Prop :=
  ∃ column ∈ columns, column = key ∨ column.sameKey key = true

theorem HasColumn.mono {columns columns' : List Value} {key : Value} (h : HasColumn columns key)
    (hsub : columns ⊆ columns') : HasColumn columns' key :=
  have ⟨column, hcolumn, hkey⟩ := h
  ⟨column, hsub hcolumn, hkey⟩

theorem hasColumn_addNew (seen : List Value) {keys : List Value} {key : Value} (hkey : key ∈ keys) :
    HasColumn (addNew seen keys) key := by
  induction keys generalizing seen with
  | nil => cases hkey
  | cons k keys ih =>
    rw [addNew]
    rcases List.mem_cons.mp hkey with rfl | hkey
    · split
      · next hany =>
        obtain ⟨column, hcolumn, hsame⟩ := List.any_eq_true.mp hany
        exact ⟨column, (isPrefix_addNew _ _).subset hcolumn, .inr hsame⟩
      · have hlast : key ∈ seen ++ [key] := List.mem_append_right seen (List.mem_singleton_self key)
        exact ⟨key, (isPrefix_addNew _ _).subset hlast, .inl rfl⟩
    · exact ih _ hkey

/-- A text has no column but itself. -/
theorem hasColumn_string {columns : List Value} {text : String} :
    HasColumn columns (.string text) ↔ .string text ∈ columns := by
  constructor
  · rintro ⟨column, hcolumn, rfl | hsame⟩
    · exact hcolumn
    · exact Value.sameKey_string.mp hsame ▸ hcolumn
  · exact fun h => ⟨_, h, .inl rfl⟩

/-! ## What is inferred -/

/-- The keys of the notes of rows. -/
def noteKeys (rows : List Row) : List Value :=
  rows.flatMap fun row => Keyed.keys row.note

/-- The column of a formula. -/
def formulaColumn (name : Value) : Value :=
  .string ("formula." ++ name.keyText)

/-- There is nothing to see in a row but the name of its file. -/
def FindsNothing (names : List Value) (rows : List Row) : Prop :=
  (∀ key ∈ noteKeys rows, key = .string "file.name") ∧ names = []

/-- The columns for rows and for formulas of these names.  Behind the name of the file come the
properties of notes and then the formulas whose columns are no properties, in the order of the
names; the path of the file comes in where nothing else does. -/
structure Inferred (names : List Value) (rows : List Row)
    (columns properties formulas rest : List Value) : Prop where
  columns_eq :
    columns = .string "file.name" :: (properties ++ (formulas.map formulaColumn ++ rest))
  distinct : columns.Pairwise fun a b => a.sameKey b = false
  properties_subset : properties ⊆ noteKeys rows
  properties_complete : ∀ key ∈ noteKeys rows, HasColumn columns key
  formulas_sublist : formulas.Sublist names
  formulas_new : ∀ name ∈ formulas, formulaColumn name ∉ noteKeys rows
  formulas_complete : ∀ name ∈ names, formulaColumn name ∈ properties ++ formulas.map formulaColumn
  rest_eq : FindsNothing names rows ∧ rest = [.string "file.path"] ∨
    ¬ FindsNothing names rows ∧ rest = []

/-- The keys of notes, in the order of the paths under which they stand. -/
def keysByPath (notes : List (String × Entries)) : List Value :=
  (notes.mergeSort fun p q => p.1 ≤ q.1).flatMap fun p => Keyed.keys p.2

theorem keysByPath_eq (rows : List Row) : keysByPath (rows.map Row.pathAndNote) =
    (rows.mergeSort fun a b => a.path ≤ b.path).flatMap fun row => row.note.map (·.1) := by
  have hsorted : (rows.mergeSort fun a b => a.path ≤ b.path).map Row.pathAndNote =
      (rows.map Row.pathAndNote).mergeSort fun p q => p.1 ≤ q.1 :=
    List.map_mergeSort fun _ _ _ _ => rfl
  rw [keysByPath, ← hsorted, List.flatMap_map]
  rfl

theorem mem_keysByPath {key : Value} :
    key ∈ keysByPath (rows.map Row.pathAndNote) ↔ key ∈ noteKeys rows := by
  rw [keysByPath_eq]
  exact ((List.mergeSort_perm rows _).flatMap_right _).mem_iff

/-- The columns but for the path that is put in where there is only one. -/
def foundColumns (names : List Value) (notes : List (String × Entries)) : List Value :=
  addNew [.string "file.name"] (keysByPath notes ++ names.map formulaColumn)

theorem inferredColumns_eq (names : List Value) (rows : List Row) :
    inferredColumns names rows =
      match foundColumns names (rows.map Row.pathAndNote) with
      | [column] => [column, .string "file.path"]
      | columns => columns := by
  rw [foundColumns, keysByPath_eq]
  rfl

theorem foundColumns_pairwise (names : List Value) (notes : List (String × Entries)) :
    (foundColumns names notes).Pairwise fun a b => a.sameKey b = false :=
  addNew_pairwise _ (List.pairwise_singleton _ _)

/-- What is found stands in three parts: the name, properties, and formulas. -/
theorem exists_foundColumns (names : List Value) (rows : List Row) :
    ∃ properties formulas : List Value, foundColumns names (rows.map Row.pathAndNote) =
        .string "file.name" :: (properties ++ formulas.map formulaColumn) ∧
      properties ⊆ noteKeys rows ∧ formulas.Sublist names ∧
      ∀ name ∈ formulas, formulaColumn name ∉ noteKeys rows := by
  obtain ⟨properties, hproperties, hkeys⟩ :=
    exists_addNew [.string "file.name"] (keysByPath (rows.map Row.pathAndNote))
  obtain ⟨columns, hcolumns, hformulas⟩ := exists_addNew
    (addNew [.string "file.name"] (keysByPath (rows.map Row.pathAndNote)))
    (names.map formulaColumn)
  obtain ⟨formulas, hsub, rfl⟩ := List.sublist_map_iff.mp hformulas
  have hdistinct := foundColumns_pairwise names (rows.map Row.pathAndNote)
  rw [foundColumns, addNew_append, hcolumns] at hdistinct
  refine ⟨properties, formulas, ?_, fun key hkey => mem_keysByPath.mp (hkeys.subset hkey), hsub,
    fun name hname hnote => ?_⟩
  · rw [foundColumns, addNew_append, hcolumns, hproperties]
    rfl
  · -- the key of the note would have its column before the formula
    have hseen := hasColumn_string.mp
      (hasColumn_addNew [.string "file.name"] (mem_keysByPath.mpr hnote))
    have hne := (List.pairwise_append.mp hdistinct).2.2 _ hseen _ (List.mem_map_of_mem hname)
    exact Bool.false_ne_true (hne.symm.trans (Value.sameKey_string.mpr rfl))

theorem hasColumn_of_mem_noteKeys (names : List Value) {key : Value} (hkey : key ∈ noteKeys rows) :
    HasColumn (foundColumns names (rows.map Row.pathAndNote)) key :=
  hasColumn_addNew _ (List.mem_append_left _ (mem_keysByPath.mpr hkey))

theorem formulaColumn_mem_foundColumns (rows : List Row) {name : Value} (hname : name ∈ names) :
    formulaColumn name ∈ foundColumns names (rows.map Row.pathAndNote) :=
  hasColumn_string.mp
    (hasColumn_addNew _ (List.mem_append_right _ (List.mem_map_of_mem hname)))

theorem formulaColumn_ne_name (name : Value) : formulaColumn name ≠ .string "file.name" := by
  intro h
  have hchars := congrArg String.toList (Value.string.inj h)
  rw [String.toList_append] at hchars
  exact absurd (List.cons.inj (List.cons.inj hchars).2).1 (by decide)

/-- The name stands alone exactly if there is nothing else. -/
theorem findsNothing_iff :
    FindsNothing names rows ↔
      foundColumns names (rows.map Row.pathAndNote) = [.string "file.name"] := by
  constructor
  · rintro ⟨hkeys, rfl⟩
    obtain ⟨properties, formulas, hfound, hproperties, hformulas, -⟩ := exists_foundColumns [] rows
    obtain rfl := List.sublist_nil.mp hformulas
    rw [List.map_nil, List.append_nil] at hfound
    have hdistinct := foundColumns_pairwise [] (rows.map Row.pathAndNote)
    rw [hfound] at hdistinct
    rw [hfound, List.cons.injEq]
    refine ⟨rfl, List.eq_nil_iff_forall_not_mem.mpr fun key hkey => ?_⟩
    have hne := List.rel_of_pairwise_cons hdistinct hkey
    rw [hkeys key (hproperties hkey)] at hne
    cases hne
  · intro hfound
    refine ⟨fun key hkey => ?_, List.eq_nil_iff_forall_not_mem.mpr fun name hname => ?_⟩
    · obtain ⟨column, hcolumn, hsame⟩ := hasColumn_of_mem_noteKeys names hkey
      rw [hfound, List.mem_singleton] at hcolumn
      subst hcolumn
      exact hsame.elim Eq.symm Value.string_sameKey.mp
    · have hcolumn := formulaColumn_mem_foundColumns rows hname
      rw [hfound, List.mem_singleton] at hcolumn
      exact formulaColumn_ne_name name hcolumn

theorem inferred_inferredColumns (names : List Value) (rows : List Row) :
    ∃ properties formulas rest,
      Inferred names rows (inferredColumns names rows) properties formulas rest := by
  obtain ⟨properties, formulas, hfound, hproperties, hformulas, hnew⟩ :=
    exists_foundColumns names rows
  have hformula : ∀ name ∈ names,
      formulaColumn name ∈ properties ++ formulas.map formulaColumn := by
    intro name hname
    have hcolumn := formulaColumn_mem_foundColumns rows hname
    rw [hfound, List.mem_cons] at hcolumn
    exact hcolumn.resolve_left (formulaColumn_ne_name name)
  by_cases hnothing : FindsNothing names rows
  · have hcolumns : inferredColumns names rows = [.string "file.name", .string "file.path"] := by
      rw [inferredColumns_eq, findsNothing_iff.mp hnothing]
    rw [findsNothing_iff.mp hnothing, List.cons.injEq] at hfound
    obtain ⟨hnil, hmap⟩ := List.append_eq_nil_iff.mp hfound.2.symm
    subst hnil
    obtain rfl := List.map_eq_nil_iff.mp hmap
    refine ⟨[], [], [.string "file.path"], hcolumns, inferredColumns_pairwise names rows,
      hproperties, fun key hkey => ?_, hformulas, hnew, hformula, .inl ⟨hnothing, rfl⟩⟩
    rw [hcolumns, hnothing.1 key hkey]
    exact hasColumn_string.mpr List.mem_cons_self
  · have hcolumns : inferredColumns names rows =
        .string "file.name" :: (properties ++ formulas.map formulaColumn) := by
      rw [inferredColumns_eq, hfound]
      cases hparts : properties ++ formulas.map formulaColumn with
      | nil => exact absurd (findsNothing_iff.mpr (hparts ▸ hfound)) hnothing
      | cons column columns => rfl
    refine ⟨properties, formulas, [], ?_, inferredColumns_pairwise names rows,
      hproperties, fun key hkey => ?_, hformulas, hnew, hformula, .inr ⟨hnothing, rfl⟩⟩
    · rw [hcolumns, List.append_nil]
    · rw [hcolumns, ← hfound]
      exact hasColumn_of_mem_noteKeys names hkey

theorem map_fst_pathAndNote (rows : List Row) :
    (rows.map Row.pathAndNote).map Prod.fst = rows.map Row.path :=
  List.map_map

/-- Of rows under distinct paths only their paths and their notes matter, not their order. -/
theorem inferredColumns_of_same (names : List Value) (hpaths : (rows.map Row.path).Nodup)
    (hpaths' : (rows'.map Row.path).Nodup)
    (h : ∀ note, note ∈ rows.map Row.pathAndNote ↔ note ∈ rows'.map Row.pathAndNote) :
    inferredColumns names rows = inferredColumns names rows' := by
  rw [← map_fst_pathAndNote] at hpaths hpaths'
  have hperm := (List.perm_ext_iff_of_nodup (.of_map _ hpaths) (.of_map _ hpaths')).mpr h
  rw [inferredColumns_eq, inferredColumns_eq, foundColumns, foundColumns, keysByPath, keysByPath,
    Sorting.mergeSort_eq_of_perm hpaths hperm]

/-! ## Inferred columns of results -/

/-- Neither the view nor the query has columns. -/
def NamesNoColumns (r : Run) (view : View) : Prop :=
  view.columns.getD [] = [] ∧ r.query.spec.properties.getD [] = []

theorem Stages.notes_eq {r : Run} {view : View} (x : Stages r view) :
    x.kept.map Row.pathAndNote = x.rows.map Row.pathAndNote := by
  have hmap := congrArg (List.map Row.pathAndNote) (projectedRows_eq_ok x.projected_eq).1.symm
  rwa [List.map_map, List.map_map] at hmap

theorem Stages.columns_eq_inferred {r : Run} {view : View} (x : Stages r view)
    (h : r.NamesNoColumns view) :
    ∃ names, Sorting.sort FormulaOrder.nameBefore (Keyed.keys r.query.spec.formulas) = .ok names ∧
      x.columns = inferredColumns names x.rows := by
  have hcolumns := x.columnsOf_eq
  unfold columnsOf at hcolumns
  rw [h.1, h.2] at hcolumns
  obtain ⟨names, hnames, hcolumns⟩ := bind_eq_ok.mp hcolumns
  obtain ⟨_, -, hcolumns⟩ := bind_eq_ok.mp hcolumns
  obtain hcolumns : inferredColumns names x.kept = x.columns := Except.ok.inj hcolumns
  refine ⟨names, hnames, ?_⟩
  rw [← hcolumns, inferredColumns_eq, inferredColumns_eq, x.notes_eq]

/-- The columns of a result for which none are named.  They are the name of the file, the properties
of the rows and the formulas, each once, and the path of the file where there is nothing else.  The
formulas that are no properties stand behind the rest in the order of their names, as far as these
have an order.  And another run with the same formulas that returns the same notes under the same
paths, which are distinct, has the same columns, in whatever order it returns them. -/
theorem columns_inferred {r : Run} {name : Option String} {view : View} {res : Result}
    (hview : viewOf r.query name = .ok view) (hnone : r.NamesNoColumns view)
    (h : r.result name = .ok res) :
    ∃ names properties formulas rest,
      Sorting.sort FormulaOrder.nameBefore (Keyed.keys r.query.spec.formulas) = .ok names ∧
      names.Perm (Keyed.keys r.query.spec.formulas) ∧
      ((∀ name ∈ names, FormulaOrder.IsOrdered name) →
        Sorting.InOrder FormulaOrder.nameBefore names) ∧
      Inferred names res.rows res.columns properties formulas rest ∧
      ∀ (r' : Run) (name' : Option String) (view' : View) (res' : Result),
        viewOf r'.query name' = .ok view' → r'.NamesNoColumns view' →
        Keyed.keys r'.query.spec.formulas = Keyed.keys r.query.spec.formulas →
        r'.result name' = .ok res' →
        (res.rows.map Row.path).Nodup → (res'.rows.map Row.path).Nodup →
        (∀ note, note ∈ res.rows.map Row.pathAndNote ↔ note ∈ res'.rows.map Row.pathAndNote) →
        res'.columns = res.columns := by
  obtain ⟨_, hview', x, rfl⟩ := result_eq_ok.mp h
  obtain rfl := Except.ok.inj (hview'.symm.trans hview)
  obtain ⟨names, hnames, hcolumns⟩ := x.columns_eq_inferred hnone
  obtain ⟨properties, formulas, rest, hinferred⟩ := inferred_inferredColumns names x.rows
  have hperm := Sorting.sort_perm hnames
  refine ⟨names, properties, formulas, rest, hnames, hperm, fun hordered => ?_, ?_, ?_⟩
  · exact FormulaOrder.inOrder_of_sort hnames fun name hname =>
      hordered name (hperm.mem_iff.mpr hname)
  · rwa [Stages.result, hcolumns]
  · intro r' name' view' res' hview' hnone' hkeys h' hpaths hpaths' hsame
    obtain ⟨_, hfound, y, rfl⟩ := result_eq_ok.mp h'
    obtain rfl := Except.ok.inj (hfound.symm.trans hview')
    obtain ⟨names', hnames', hcolumns'⟩ := y.columns_eq_inferred hnone'
    rw [hkeys, hnames, Except.ok.injEq] at hnames'
    rw [Stages.result, Stages.result, hcolumns, hcolumns', ← hnames']
    exact (inferredColumns_of_same names hpaths hpaths' hsame).symm

/-- A document with a rank and one more property. -/
def propertyDocument (path : String) (rank : Int) (property : String) : Document where
  note := [(.string "rank", .int rank), (.string property, .null)]
  file := { name := path, path }

/-- Two documents by their ranks, without columns.  One has a property that is spelled like the
column of a formula. -/
def spelledLikeFormula : Run where
  query := {
    spec := {
      views := [
        { name := "rising", sort := [{ property := "rank" }] },
        { name := "falling", sort := [{ property := "rank", direction := .falling }] }]
      formulas := [(.string "b", "1"), (.string "a", "2")] }
    strict := false
    globalFilter := none
    viewFilters := []
    formulas := [(.string "b", .literal (.number (.int 1)) "1"),
      (.string "a", .literal (.number (.int 2)) "2")]
    formulaOrder := [.string "b", .string "a"]
    summaries := [] }
  documents := [propertyDocument "x" 1 "formula.b", propertyDocument "y" 2 "title"]
  now := default
  library := .empty

/-- The rows of the documents, in the order of these. -/
def rankedRows : List Row :=
  spelledLikeFormula.documents.map fun doc =>
    { doc.start with formula := [(.string "b", .int 1), (.string "a", .int 2)] }

/-- The columns that are found for them. -/
def rankedColumns : List Value :=
  ["file.name", "rank", "formula.b", "title", "formula.a"].map .string

theorem inferredColumns_rankedRows :
    inferredColumns [.string "a", .string "b"] rankedRows = rankedColumns := by
  have hsorted : rankedRows.mergeSort (fun a b => a.path ≤ b.path) = rankedRows :=
    List.mergeSort_of_pairwise (by decide)
  rw [inferredColumns, hsorted]
  rfl

/-- What a view returns, from the order of its rows. -/
theorem exists_result_of_sorted {name : String} {sort : List SortKey} {ordered : List Row}
    (hview : viewOf spelledLikeFormula.query (some name) = .ok { name, sort })
    (hsorted : spelledLikeFormula.sorted spelledLikeFormula.files sort rankedRows =
      .ok (ordered, []))
    (hperm : ordered.Perm rankedRows)
    (hprojected : (forRows (spelledLikeFormula.projectedRow spelledLikeFormula.files rankedColumns)
      ordered).map (·.2) = .ok []) :
    ∃ res, spelledLikeFormula.result (some name) = .ok res ∧ res.columns = rankedColumns ∧
      res.rows.map Row.pathAndNote = ordered.map Row.pathAndNote := by
  obtain ⟨⟨rows, warnings⟩, hprojected, -⟩ := map_eq_ok.mp hprojected
  have hcolumns : inferredColumns [.string "a", .string "b"] ordered = rankedColumns := by
    rw [← inferredColumns_rankedRows]
    exact inferredColumns_of_same _ ((hperm.map _).nodup_iff.mpr (by decide)) (by decide)
      fun note => (hperm.map _).mem_iff
  let x : Stages spelledLikeFormula { name, sort } := {
    chosen := rankedRows
    errors := []
    rowsOf_eq := rfl
    ordered := ordered
    sortWarnings := []
    sorted_eq := hsorted
    kept := ordered
    limited_eq := rfl
    columns := rankedColumns
    columnsOf_eq := congrArg Except.ok hcolumns
    rows := rows
    cellWarnings := warnings
    projected_eq := hprojected
    groups := none
    groupWarnings := []
    grouped_eq := rfl
    summaries := []
    summaryWarnings := []
    summarized_eq := rfl }
  exact ⟨x.result, result_eq_ok.mpr ⟨_, hview, x, rfl⟩, rfl, x.notes_eq.symm⟩

theorem columns_inferred_spelledLikeFormula :
    ∃ rising falling, spelledLikeFormula.result (some "rising") = .ok rising ∧
      spelledLikeFormula.result (some "falling") = .ok falling ∧
      rising.rows.map Row.path = ["x", "y"] ∧ falling.rows.map Row.path = ["y", "x"] ∧
      rising.columns = ["file.name", "rank", "formula.b", "title", "formula.a"].map .string ∧
      falling.columns = rising.columns := by
  have hview : viewOf spelledLikeFormula.query (some "rising") =
      .ok { name := "rising", sort := [{ property := "rank" }] } := rfl
  have hview' : viewOf spelledLikeFormula.query (some "falling") =
      .ok { name := "falling", sort := [{ property := "rank", direction := .falling }] } := rfl
  have hsorted : spelledLikeFormula.sorted spelledLikeFormula.files [{ property := "rank" }]
      rankedRows = .ok (rankedRows, []) := rfl
  have hsorted' : spelledLikeFormula.sorted spelledLikeFormula.files
      [{ property := "rank", direction := .falling }] rankedRows =
        .ok (rankedRows.reverse, []) := rfl
  obtain ⟨rising, h, hcolumns, hnotes⟩ :=
    exists_result_of_sorted hview hsorted (.refl _) (by decide +kernel)
  obtain ⟨falling, h', -, hnotes'⟩ :=
    exists_result_of_sorted hview' hsorted' (List.reverse_perm _) (by decide +kernel)
  have hpaths : rising.rows.map Row.path = ["x", "y"] := by
    rw [← map_fst_pathAndNote, hnotes]
    rfl
  have hpaths' : falling.rows.map Row.path = ["y", "x"] := by
    rw [← map_fst_pathAndNote, hnotes']
    rfl
  obtain ⟨-, -, -, -, -, -, -, -, hother⟩ := columns_inferred hview ⟨rfl, rfl⟩ h
  refine ⟨rising, falling, h, h', hpaths, hpaths', hcolumns,
    hother _ _ _ falling hview' ⟨rfl, rfl⟩ rfl h' ?_ ?_ fun note => ?_⟩
  · rw [hpaths]
    decide
  · rw [hpaths']
    decide
  · rw [hnotes, hnotes', List.map_reverse, List.mem_reverse]

end Run

end NoteQuery
