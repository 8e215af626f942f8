/-
Results that do not contain themselves.

Expressions give whole values where everything that they can reach is whole.  While the formulas of
a row are computed, a cycle can arise in one way only: a formula has a value that holds the mapping
in which the value is to be put (`Run.StoresItself`).  If that does not happen, all stages of a run
keep values whole, and there is nothing in the rows, the keys of groups and the summaries of a
result that contains itself (`Run.result_whole`).
-/
import NoteQuery.Proofs.Coincidence
import NoteQuery.Proofs.FormulaValues
import NoteQuery.Proofs.Grouping

namespace NoteQuery

open Value

/-! ## Expressions -/

/-- Everything that can be reached from the scope is whole. -/
structure Scope.Whole (s : Scope) : Prop extends Filled Value.Whole s where
  formula : (Value.mapping true s.formula).Whole
  files : ∀ f ∈ s.files, (Value.file f.2).Whole

theorem Scope.whole_linked : Linked Value.Whole fun s s' => s.Whole ∧ s' = s where
  beside h := by
    obtain ⟨-, rfl⟩ := h
    rfl
  files h := h.1.files
  bind h hb := ⟨{ h.1 with toFilled := h.1.toFilled.withBindings hb }, h.2 ▸ rfl⟩

/-- The value of an expression is whole if everything is that it can reach. -/
theorem Expr.eval_whole {e : Expr} {s : Scope} (hs : s.Whole) {v : Value} (hv : e.eval s = .ok v) :
    v.Whole := by
  have hnames (a : Expr) (ha : a.IsNameIn e.names) :
      a.Steady Value.Whole fun s s' => s.Whole ∧ s' = s := by
    obtain ⟨n, -, rfl⟩ := ha
    rintro _ s ⟨hs, rfl⟩
    simp only [eval, Scope.resolve]
    cases hfound : s.find? n with
    | none => exact Scope.steady_fail Whole.hereditary Scope.whole_linked ⟨hs, rfl⟩ _
    | some v =>
      exact steady_ok (hs.toFilled.find? Whole.hereditary (fun _ => hs.formula) hfound)
  have hcomposed := composed_of_names e (List.Subset.refl e.names)
  exact (hcomposed.steady Whole.hereditary Scope.whole_linked hnames ⟨hs, rfl⟩).gives v hv

/-! ## Rows -/

/-- Nothing in the document contains itself. -/
def Document.Whole (doc : Document) : Prop :=
  (∀ v ∈ Entries.parts doc.note, v.Whole) ∧ (Value.file doc.file).Whole

namespace Run

variable {r : Run}

/-- A formula of a document has a value that holds the mapping in which it is to be put. -/
def StoresItself (r : Run) : Prop :=
  ∃ doc ∈ r.documents, ∃ before name e after row v,
    r.query.orderedFormulas = before ++ (name, e) :: after ∧
      r.Computes r.files before doc.start row ∧ e.eval (r.scope r.files row none) = .ok v ∧
      v.holdsLive = true

/-- Everything that a row is computed from is whole. -/
structure WholeRow (files : FileIndex) (row : Row) : Prop where
  note : ∀ v ∈ Entries.parts row.note, v.Whole
  file : (Value.file row.file).Whole
  formulas : ∀ v ∈ Entries.parts row.formula, v.Whole
  projected : ∀ v ∈ Entries.parts row.projected, v.Whole
  files : ∀ f ∈ files, (Value.file f.2).Whole

namespace WholeRow

variable {files : FileIndex} {row : Row}

theorem scope (h : WholeRow files row) {projected : Option Entries}
    (hprojected : ∀ entries, projected = some entries → ∀ v ∈ Entries.parts entries, v.Whole) :
    (r.scope files row projected).Whole where
  note := h.note
  file := fun _ hfile => Option.some.inj hfile ▸ h.file
  formula := .mapping h.formulas
  identity := fun _ hentries => Option.some.inj hentries ▸ Entries.ofTexts_parts Whole.hereditary
    (List.forall_mem_cons.mpr ⟨.string _, List.forall_mem_singleton.mpr (.string _)⟩)
  projected := hprojected
  bindings := List.forall_mem_nil _
  files := h.files

theorem rowScope (h : WholeRow files row) : (r.scope files row none).Whole :=
  h.scope nofun

theorem projectedScope (h : WholeRow files row) : (r.projectedScope files row).Whole :=
  h.scope fun _ hentries => Option.some.inj hentries ▸ h.projected

/-- A value that does not hold the mapping of formulas can be put there. -/
theorem put (h : WholeRow files row) {name v : Value} (hname : name.Whole) (hv : v.Whole)
    (hlive : v.holdsLive = false) :
    WholeRow files { row with formula := row.formula.put name v.closeCycles } where
  note := h.note
  file := h.file
  formulas := Entries.put_parts h.formulas hname (hv.closeCycles_iff.mpr hlive)
  projected := h.projected
  files := h.files

/-- A row to which nothing has been computed yet. -/
theorem start (hdocs : ∀ doc ∈ r.documents, doc.Whole) {doc : Document} (hdoc : doc ∈ r.documents) :
    WholeRow r.files doc.start where
  note := (hdocs doc hdoc).1
  file := (hdocs doc hdoc).2
  formulas := List.forall_mem_nil _
  projected := List.forall_mem_nil _
  files := Document.forall_mem_index (P := fun file => (Value.file file).Whole)
    fun doc hdoc => (hdocs doc hdoc).2

end WholeRow

/-- A row stays whole as long as no formula has a value that holds what it is put in. -/
theorem Computes.wholeRow {files : FileIndex} {formulas : Keyed Expr} {row row' : Row}
    (h : r.Computes files formulas row row') (hrow : WholeRow files row)
    (hnames : ∀ f ∈ formulas, f.1.Whole)
    (hstores : ∀ before name e after between v, formulas = before ++ (name, e) :: after →
      r.Computes files before row between → e.eval (r.scope files between none) = .ok v →
        v.holdsLive = false) :
    WholeRow files row' := by
  induction h with
  | done row => exact hrow
  | @step name e formulas row row' v hv _ ih =>
    obtain ⟨hname, hnames⟩ := List.forall_mem_cons.mp hnames
    have hlive := hstores [] name e formulas row v rfl (.done row) hv
    refine ih (hrow.put hname (Expr.eval_whole hrow.rowScope hv) hlive) hnames ?_
    intro before name' e' after between w hformulas hbefore hw
    exact hstores ((name, e) :: before) name' e' after between w (hformulas ▸ rfl)
      (.step hv hbefore) hw

/-- Formulas that read each other by name do not have values that hold what they are put in. -/
theorem not_storesItself (hdocs : ∀ doc ∈ r.documents, doc.Settled)
    (hformulas : ∀ f ∈ r.query.orderedFormulas,
      f.1.Settled ∧ f.2.ReadsOnly (fun _ => True) fun _ => True) : ¬ r.StoresItself := by
  rintro ⟨doc, hdoc, before, name, e, after, row, v, hsplit, hbefore, hv, hlive⟩
  rw [hsplit, List.forall_mem_append, List.forall_mem_cons] at hformulas
  have hrow := hbefore.settled (.start hdocs hdoc) hformulas.1
  have hsettled := hrow.value hformulas.2.1.2 hv
  rw [hsettled.holdsLive_eq] at hlive
  cases hlive

/-- A row that a document gives is whole, if no formula has a value that holds what it is put in. -/
theorem wholeRow_of_rowFrom? (hself : ¬ r.StoresItself)
    (hnames : ∀ f ∈ r.query.orderedFormulas, f.1.Whole) (hdocs : ∀ doc ∈ r.documents, doc.Whole)
    {filters : List Filter} {doc : Document} (hdoc : doc ∈ r.documents) {row : Row}
    (h : r.rowFrom? r.files filters doc = some row) : WholeRow r.files row := by
  rw [rowFrom?_eq_some_iff, rowOf] at h
  obtain ⟨row', hrow', h⟩ := bind_eq_ok.mp h
  obtain ⟨passes, -, h⟩ := bind_eq_ok.mp h
  have hwhole : WholeRow r.files row' := by
    refine (computes_iff.mpr hrow').wholeRow (.start hdocs hdoc) hnames ?_
    intro before name e after between v hformulas hbefore hv
    refine Bool.eq_false_iff.mpr fun hlive => hself ?_
    exact ⟨doc, hdoc, before, name, e, after, between, v, hformulas, hbefore, hv, hlive⟩
  cases passes with
  | false => cases h
  | true =>
    cases h
    exact hwhole

/-! ## Cells -/

section Cells

variable {files : FileIndex} {row : Row} {rows : List Row} {warnings : List String} {v : Value}

theorem evaluated_whole {s : Scope} (hs : s.Whole) {source : String} {e : Expr}
    (h : evaluated s row source e = .ok (v, warnings)) : v.Whole := by
  unfold evaluated at h
  split at h
  · next hv =>
    cases h
    exact Expr.eval_whole hs hv
  · cases h
    exact .null
  · cases h

theorem expressionCell_whole {s : Scope} (hs : s.Whole) {source : String}
    (h : expressionCell s row source = .ok (v, warnings)) : v.Whole := by
  unfold expressionCell at h
  split at h
  · cases h
    exact .null
  · cases h
  · split at h
    · exact evaluated_whole hs h
    · cases h
      exact .null
  · exact evaluated_whole hs h

theorem WholeRow.cell_whole (hrow : WholeRow files row) {s : Scope} (hs : s.Whole)
    {reference : Value} (h : cell s row reference = .ok (v, warnings)) : v.Whole := by
  unfold cell at h
  split at h
  · next hfound =>
    cases h
    exact Entries.find?_of_parts hrow.note hfound
  · split at h
    · exact expressionCell_whole hs h
    · cases h

theorem forall_of_forRows {α : Type} {P : α → Prop} {f : Row → Except Fault (Warned α)}
    {as : List α} (h : forRows f rows = .ok (as, warnings))
    (hf : ∀ row ∈ rows, ∀ a found, f row = .ok (a, found) → P a) : ∀ a ∈ as, P a := by
  intro a ha
  obtain ⟨row, hrow, found, hfound⟩ := exists_of_mem_left (forRows_forall₂ h).flip ha
  exact hf row hrow a found hfound

/-! ## Columns -/

theorem mem_of_addNew {seen keys : List Value} {key : Value} (h : key ∈ addNew seen keys) :
    key ∈ seen ∨ key ∈ keys := by
  induction keys generalizing seen with
  | nil => exact .inl h
  | cons k keys ih =>
    rw [addNew] at h
    rcases ih h with hseen | hkeys
    · split at hseen
      · exact .inl hseen
      · rcases List.mem_append.mp hseen with hseen | hk
        · exact .inl hseen
        · exact .inr (List.mem_singleton.mp hk ▸ List.mem_cons_self)
    · exact .inr (List.mem_cons_of_mem k hkeys)

/-- A column is a text, or a key in the note of some row. -/
theorem mem_inferredColumns {formulas : List Value} {column : Value}
    (h : column ∈ inferredColumns formulas rows) :
    (∃ t, column = .string t) ∨ ∃ row ∈ rows, ∃ e ∈ row.note, column = e.1 := by
  have hkeys : column ∈ addNew [.string "file.name"]
      ((rows.mergeSort fun a b => a.path ≤ b.path).flatMap (fun row => row.note.map (·.1)) ++
        formulas.map fun name => Value.string ("formula." ++ name.keyText)) ∨
      column = .string "file.path" := by
    rw [inferredColumns] at h
    split at h
    · next hcolumns =>
      rcases List.mem_cons.mp h with rfl | h
      · exact .inl (hcolumns ▸ List.mem_cons_self)
      · exact .inr (List.mem_singleton.mp h)
    · exact .inl h
  rcases hkeys with hkeys | rfl
  · rcases mem_of_addNew hkeys with hfirst | hkeys
    · exact .inl ⟨_, List.mem_singleton.mp hfirst⟩
    · rcases List.mem_append.mp hkeys with hnote | hformula
      · obtain ⟨row, hrow, hkey⟩ := List.mem_flatMap.mp hnote
        obtain ⟨e, he, rfl⟩ := List.mem_map.mp hkey
        exact .inr ⟨row, (List.mergeSort_perm rows _).mem_iff.mp hrow, e, he, rfl⟩
      · obtain ⟨name, -, rfl⟩ := List.mem_map.mp hformula
        exact .inl ⟨_, rfl⟩
  · exact .inl ⟨_, rfl⟩

theorem mem_columnsOf {view : View} {columns : List Value} (h : r.columnsOf view rows = .ok columns)
    {column : Value} (hcolumn : column ∈ columns) :
    (∃ t, column = .string t) ∨ ∃ row ∈ rows, ∃ e ∈ row.note, column = e.1 := by
  rcases columnsOf_eq_ok h with ⟨names, -, rfl⟩ | ⟨texts, rfl⟩
  · exact mem_inferredColumns hcolumn
  · obtain ⟨t, -, rfl⟩ := List.mem_map.mp hcolumn
    exact .inl ⟨t, rfl⟩

theorem WholeRow.projectedRow_whole (hrow : WholeRow files row) {columns : List Value}
    (hcolumns : ∀ column ∈ columns, column.Whole) {row' : Row}
    (h : r.projectedRow files columns row = .ok (row', warnings)) : WholeRow files row' := by
  simp only [projectedRow, bind_eq_ok, Prod.exists] at h
  obtain ⟨values, found, hcells, h⟩ := h
  cases h
  refine { hrow with projected := Entries.ofList_parts fun p hp => ?_ }
  obtain ⟨_, hcell⟩ := (List.forall₂_iff_zip.mp (cells_eq_ok hcells)).2 hp
  exact ⟨hcolumns p.1 (List.of_mem_zip hp).1, hrow.cell_whole hrow.rowScope hcell⟩

/-! ## Groups -/

/-- The key of each group is one of the keys, and its rows are among the rows. -/
theorem mem_bucketed {keyed : List ((String × Value) × Row)} {group : Group}
    (h : group ∈ bucketed keyed) :
    group.key ∈ keyed.map (·.1.2) ∧ ∀ row ∈ group.rows, row ∈ keyed.map (·.2) := by
  rw [bucketed_eq] at h
  obtain ⟨q, hq, rfl⟩ := List.mem_map.mp h
  refine ⟨List.mem_map_of_mem (f := fun p => p.1.2) (newcomers_subset hq), fun row hrow => ?_⟩
  obtain ⟨p, hp, rfl⟩ := List.mem_map.mp hrow
  exact List.mem_map_of_mem (f := fun p => p.2) (List.mem_of_mem_filter hp)

theorem grouped_whole (hrows : ∀ row ∈ rows, WholeRow files row) {groupBy : Option SortKey}
    {groups : List Group} (h : r.grouped files groupBy rows = .ok (some groups, warnings))
    {group : Group} (hgroup : group ∈ groups) :
    group.key.Whole ∧ ∀ row ∈ group.rows, row ∈ rows := by
  cases groupBy with
  | none => cases h
  | some key =>
    simp only [grouped, bind_eq_ok, Prod.exists] at h
    obtain ⟨keys, found, hkeys, _, -, h⟩ := h
    cases h
    have hbucketed := mem_bucketed ((List.mergeSort_perm _ _).mem_iff.mp hgroup)
    constructor
    · obtain ⟨p, hp, hkey⟩ := List.mem_map.mp hbucketed.1
      rw [← hkey]
      refine forall_of_forRows hkeys (P := fun key => key.2.Whole) ?_ p.1 (List.of_mem_zip hp).1
      intro row hrow key found hfound
      simp only [groupKey, bind_eq_ok, Prod.exists] at hfound
      obtain ⟨v, more, hv, structural, -, hfound⟩ := hfound
      cases hfound
      exact (hrows row hrow).cell_whole (hrows row hrow).projectedScope hv
    · intro row hrow
      obtain ⟨p, hp, rfl⟩ := List.mem_map.mp (hbucketed.2 row hrow)
      exact (List.of_mem_zip hp).2

/-! ## Summaries -/

theorem columnValues_whole (hrows : ∀ row ∈ rows, WholeRow files row) {columns values : List Value}
    {column : Value} (h : r.columnValues files columns rows column = .ok (values, warnings)) :
    ∀ v ∈ values, v.Whole := by
  unfold columnValues at h
  split at h
  · cases h
    refine List.forall_mem_map.mpr fun row hrow => ?_
    exact Whole.hereditary.getD fun v hv => Entries.find?_of_parts (hrows row hrow).projected hv
  · refine forall_of_forRows h fun row hrow v found hv => ?_
    exact (hrows row hrow).cell_whole (hrows row hrow).projectedScope hv

theorem summaryScope_whole (hfiles : ∀ f ∈ files, (Value.file f.2).Whole) {values : List Value}
    (hvalues : ∀ v ∈ values, v.Whole) : (r.summaryScope files values).Whole := by
  have hfilled : Scope.Filled Value.Whole (r.summaryScope files values) :=
    { note := List.forall_mem_nil _
      file := fun _ h => by cases h
      identity := fun _ h => by cases h
      projected := fun _ h => by cases h
      bindings := List.forall_mem_singleton.mpr (.list hvalues) }
  exact { hfilled with formula := .mapping (List.forall_mem_nil _), files := hfiles }

end Cells

end Run

/-- The summaries that every query has give numbers, moments or null. -/
theorem Summary.apply_whole {summary : Summary} {values : List Value} {v : Value}
    (h : summary.apply values = .ok v) : v.Whole := by
  have hnumbers (f : Number → List Number → Except Fault Number)
      (h : ofNumbers f values = .ok v) : v.Whole := by
    obtain ⟨ns, -, h⟩ := bind_eq_ok.mp h
    split at h
    · cases h
      exact .null
    · obtain ⟨n, -, h⟩ := bind_eq_ok.mp h
      cases h
      exact .number n
  have hmoment (before : Int → Int → Bool) (h : momentBy before values = .ok v) : v.Whole := by
    unfold momentBy at h
    split at h
    · cases h
      exact .null
    · obtain ⟨t, -, rfl⟩ := map_eq_ok.mp h
      exact Whole.hereditary.getD fun w hw => by
        obtain ⟨t, -, rfl⟩ := Option.map_eq_some_iff.mp hw
        exact .timestamp t
  cases summary with
  | least | greatest | median | deviation => exact hnumbers _ h
  | earliest | latest => exact hmoment _ h
  | count | checked | unchecked | empty | filled =>
    cases h
    exact .number _
  | sum =>
    obtain ⟨ns, -, h⟩ := bind_eq_ok.mp h
    obtain ⟨n, -, h⟩ := bind_eq_ok.mp h
    cases h
    exact .number n
  | average =>
    obtain ⟨ns, -, h⟩ := bind_eq_ok.mp h
    split at h
    · cases h
      exact .number _
    · obtain ⟨total, -, h⟩ := bind_eq_ok.mp h
      obtain ⟨n, -, h⟩ := bind_eq_ok.mp h
      cases h
      exact .number n
  | range =>
    simp only [apply] at h
    split at h
    · obtain ⟨last, -, h⟩ := bind_eq_ok.mp h
      obtain ⟨first, -, h⟩ := bind_eq_ok.mp h
      obtain ⟨m, -, h⟩ := bind_eq_ok.mp h
      obtain ⟨n, -, h⟩ := bind_eq_ok.mp h
      cases h
      exact .number _
    · exact hnumbers _ h
  | unique =>
    obtain ⟨keys, -, h⟩ := bind_eq_ok.mp h
    cases h
    exact .number _

namespace Run

variable {r : Run}

theorem summarized_whole {files : FileIndex} {rows : List Row} {columns : List Value}
    (hfiles : ∀ f ∈ files, (Value.file f.2).Whole) (hrows : ∀ row ∈ rows, WholeRow files row)
    {summaries : Keyed String} {entries : Entries} {warnings : List String}
    (h : r.summarized files columns rows summaries = .ok (entries, warnings)) :
    ∀ e ∈ entries, e.2.Whole := by
  induction summaries generalizing entries warnings with
  | nil =>
    cases h
    exact List.forall_mem_nil _
  | cons summary summaries ih =>
    simp only [summarized, bind_eq_ok, Prod.exists] at h
    obtain ⟨values, found, hvalues, v, more, hv, entries', others, hrest, h⟩ := h
    cases h
    refine List.forall_mem_cons.mpr ⟨?_, ih hrest⟩
    have hscope := summaryScope_whole (r := r) hfiles (columnValues_whole hrows hvalues)
    unfold summaryOf at hv
    split at hv
    · obtain ⟨w, hw, hv⟩ := bind_eq_ok.mp hv
      cases hv
      exact Summary.apply_whole hw
    · obtain ⟨e, -, hv⟩ := bind_eq_ok.mp hv
      split at hv
      · cases hv
        exact .null
      · split at hv
        · next heval =>
          cases hv
          exact Expr.eval_whole hscope heval
        · obtain ⟨_, -, hv⟩ := bind_eq_ok.mp hv
          cases hv
          exact .null
        · cases hv

/-- Formulas leave the note as it is. -/
theorem Computes.note_eq {files : FileIndex} {formulas : Keyed Expr} {row row' : Row}
    (h : r.Computes files formulas row row') : row'.note = row.note := by
  induction h with
  | done row => rfl
  | step _ _ ih => exact ih

theorem note_of_rowFrom? {files : FileIndex} {filters : List Filter} {doc : Document} {row : Row}
    (h : r.rowFrom? files filters doc = some row) : row.note = doc.note := by
  rw [rowFrom?_eq_some_iff, rowOf] at h
  obtain ⟨row', hrow', h⟩ := bind_eq_ok.mp h
  obtain ⟨passes, -, h⟩ := bind_eq_ok.mp h
  cases passes with
  | false => cases h
  | true =>
    cases h
    exact (computes_iff.mpr hrow').note_eq

theorem mem_of_limited {limit : Option Number} {rows kept : List Row}
    (h : limited limit rows = .ok kept) : ∀ row ∈ kept, row ∈ rows := by
  unfold limited at h
  split at h
  · cases h
    exact fun _ => id
  · cases h
    exact fun _ => List.mem_of_mem_take
  · cases h

end Run

/-! ## Results -/

/-- The values of the columns of a row. -/
def Row.values (row : Row) : List Value :=
  row.projected.map (·.2)

/-- All values of a result: its columns, the values in its rows, the keys of its groups and the
values in their rows, and the values of its summaries. -/
def Result.values (r : Result) : List Value :=
  r.columns ++ r.rows.flatMap Row.values ++
    (r.groups.getD []).flatMap (fun group => group.key :: group.rows.flatMap Row.values) ++
    (r.summaries.getD []).map (·.2)

namespace Run

variable {r : Run}

/-- The rows that are kept are those of documents. -/
theorem Stages.exists_document {view : View} (x : Stages r view) {row : Row} (hrow : row ∈ x.kept) :
    ∃ doc ∈ r.documents, r.rowFrom? r.files (r.query.filtersOf view.name) doc = some row := by
  have hchosen := (sorted_perm x.sorted_eq).mem_iff.mp (mem_of_limited x.limited_eq row hrow)
  rw [(rowsOf_eq_ok x.rowsOf_eq).1] at hchosen
  exact List.mem_filterMap.mp hchosen

/-- A column of a result is a text, or a key in the note of a document. -/
theorem mem_columns {name : Option String} {res : Result} (h : r.result name = .ok res)
    {column : Value} (hcolumn : column ∈ res.columns) :
    (∃ t, column = .string t) ∨ ∃ doc ∈ r.documents, ∃ e ∈ doc.note, column = e.1 := by
  obtain ⟨view, -, x, rfl⟩ := result_eq_ok.mp h
  refine (mem_columnsOf x.columnsOf_eq hcolumn).imp_right ?_
  rintro ⟨row, hrow, e, he, hkey⟩
  obtain ⟨doc, hdoc, hfrom⟩ := x.exists_document hrow
  exact ⟨doc, hdoc, e, note_of_rowFrom? hfrom ▸ he, hkey⟩

/-- No value in a row, a group key or a summary contains itself, unless a formula has a value that
holds the mapping in which it is put. -/
theorem result_whole {name : Option String} {res : Result} (hdocs : ∀ doc ∈ r.documents, doc.Whole)
    (hnames : ∀ f ∈ r.query.orderedFormulas, f.1.Whole) (hself : ¬ r.StoresItself)
    (h : r.result name = .ok res) : ∀ v ∈ res.values, v.Whole := by
  obtain ⟨view, -, x, rfl⟩ := result_eq_ok.mp h
  have hkept : ∀ row ∈ x.kept, WholeRow r.files row := by
    intro row hrow
    obtain ⟨doc, hdoc, hfrom⟩ := x.exists_document hrow
    exact wholeRow_of_rowFrom? hself hnames hdocs hdoc hfrom
  have hcolumns : ∀ column ∈ x.columns, column.Whole := by
    intro column hcolumn
    rcases mem_columnsOf x.columnsOf_eq hcolumn with ⟨t, rfl⟩ | ⟨row, hrow, e, he, rfl⟩
    · exact .string t
    · exact (hkept row hrow).note e.1 (Entries.mem_parts he).1
  have hrows : ∀ row ∈ x.rows, WholeRow r.files row :=
    forall_of_forRows x.projected_eq fun row hrow _ _ =>
      (hkept row hrow).projectedRow_whole hcolumns
  have hvalues : ∀ row ∈ x.rows, ∀ v ∈ row.values, v.Whole := fun row hrow v hv =>
    (hrows row hrow).projected v (List.mem_append_right _ hv)
  have hfiles : ∀ f ∈ r.files, (Value.file f.2).Whole :=
    Document.forall_mem_index (P := fun file => (Value.file file).Whole) fun doc hdoc =>
      (hdocs doc hdoc).2
  simp only [Result.values, List.forall_mem_append, List.forall_mem_flatMap]
  refine ⟨⟨⟨hcolumns, hvalues⟩, ?_⟩, ?_⟩
  · intro group hgroup
    cases hgroups : x.groups with
    | none =>
      rw [Stages.result, hgroups] at hgroup
      cases hgroup
    | some groups =>
      rw [Stages.result, hgroups] at hgroup
      have hgrouped := x.grouped_eq
      rw [hgroups] at hgrouped
      obtain ⟨hkey, hmembers⟩ := grouped_whole hrows hgrouped hgroup
      simp only [List.forall_mem_cons, List.forall_mem_flatMap]
      exact ⟨hkey, fun row hrow => hvalues row (hmembers row hrow)⟩
  · refine List.forall_mem_map.mpr fun e he => ?_
    have he : e ∈ x.summaries := by
      simp only [Stages.result] at he
      split at he
      · cases he
      · exact he
    exact summarized_whole hfiles hrows x.summarized_eq e he

end Run

end NoteQuery
