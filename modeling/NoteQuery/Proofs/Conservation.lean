/-
No document is lost.

A run gives each document one of three verdicts: it matched, one of its formulas or filters
failed, or a filter rejected it.  `HasVerdict` says what each of them means in terms of formulas
and filters, and `hasVerdict_iff` that the verdict is what the run of the document came to, so
there is exactly one.  Behind that, sorting only moves rows, the limit takes the first of them,
and projecting adds nothing but the columns; so rows, counts and errors can be read off the
verdicts, whether or not documents share their paths (`result_conserves`).
-/
import NoteQuery.Proofs.Mappings
import NoteQuery.Proofs.Stages

namespace NoteQuery

theorem exists_of_mem_left {α β : Type} {R : α → β → Prop} {as : List α} {bs : List β}
    (h : List.Forall₂ R as bs) {a : α} (ha : a ∈ as) : ∃ b ∈ bs, R a b := by
  induction h with
  | nil => cases ha
  | cons hab _ ih =>
    rcases List.mem_cons.mp ha with rfl | ha
    · exact ⟨_, List.mem_cons_self, hab⟩
    · obtain ⟨b, hb, hR⟩ := ih ha
      exact ⟨b, List.mem_cons_of_mem _ hb, hR⟩

/-! ## Filters one after the other -/

namespace Filter

theorem allPass_eq_true_iff {filters : List Filter} {s : Scope} :
    allPass filters s = .ok true ↔ ∀ filter ∈ filters, filter.passes s = .ok true := by
  induction filters with
  | nil => simp only [allPass, List.not_mem_nil, false_implies, implies_true]
  | cons filter filters ih =>
    rw [List.forall_mem_cons, ← ih, allPass]
    constructor
    · intro h
      obtain ⟨passes, hpasses, hrest⟩ := bind_eq_ok.mp h
      cases passes with
      | true => exact ⟨hpasses, hrest⟩
      | false => cases hrest
    · rintro ⟨hpasses, hrest⟩
      rw [hpasses]
      exact hrest

/-- If not all filters pass, what comes of them is what comes of the first that does not. -/
theorem allPass_eq_iff {filters : List Filter} {s : Scope} {outcome : Except Failure Bool}
    (hstops : outcome ≠ .ok true) :
    allPass filters s = outcome ↔ ∃ before filter after, filters = before ++ filter :: after ∧
      (∀ f ∈ before, f.passes s = .ok true) ∧ filter.passes s = outcome := by
  constructor
  · intro h
    induction filters with
    | nil => exact absurd h.symm hstops
    | cons filter filters ih =>
      rw [allPass] at h
      cases hfilter : filter.passes s with
      | error e =>
        rw [hfilter] at h
        exact ⟨[], filter, filters, rfl, nofun, hfilter.trans h⟩
      | ok passes =>
        rw [hfilter] at h
        cases passes with
        | false => exact ⟨[], filter, filters, rfl, nofun, hfilter.trans h⟩
        | true =>
          obtain ⟨before, stopping, after, rfl, hbefore, hstopping⟩ := ih h
          exact ⟨filter :: before, stopping, after, rfl,
            List.forall_mem_cons.mpr ⟨hfilter, hbefore⟩, hstopping⟩
  · rintro ⟨before, filter, after, rfl, hbefore, hfilter⟩
    induction before with
    | nil =>
      rw [List.nil_append, allPass, hfilter]
      cases outcome with
      | error e => rfl
      | ok passes =>
        cases passes with
        | false => rfl
        | true => exact absurd rfl hstops
    | cons first before ih =>
      rw [List.forall_mem_cons] at hbefore
      rw [List.cons_append, allPass, hbefore.1]
      exact ih hbefore.2

end Filter

/-! ## Verdicts -/

/-- What becomes of a document in a run. -/
inductive Verdict where
  /-- The formulas have values and the filters pass. -/
  | matched (row : Row)
  /-- A formula or a filter has no value. -/
  | failed (e : EvalError)
  /-- A filter does not pass. -/
  | rejected

namespace Verdict

/-- The row of a document that matched. -/
def row? : Verdict → Option Row
  | matched row => some row
  | _ => none

/-- Why a document failed. -/
def error? : Verdict → Option EvalError
  | failed e => some e
  | _ => none

/-- What the run of a document comes to. -/
def outcome : Verdict → Except Failure (Option Row)
  | matched row => .ok (some row)
  | failed e => .error (.evaluation e)
  | rejected => .ok none

theorem outcome_injective {v w : Verdict} (h : v.outcome = w.outcome) : v = w := by
  cases v <;> cases w <;> cases h <;> rfl

end Verdict

/-- The documents that failed, and why, from the verdicts on documents. -/
def failures (docs : List Document) (verdicts : List Verdict) : List (Document × EvalError) :=
  (docs.zip verdicts).filterMap fun (doc, verdict) => verdict.error?.map (doc, ·)

/-- A row without the values of its columns. -/
def Row.withoutColumns (row : Row) : Row :=
  { row with projected := [] }

/-- The view with another limit. -/
def View.withLimit (view : View) (limit : Option Nat) : View :=
  { view with limit := limit.map fun n : Nat => .int n }

/-- A row to which nothing has been computed yet. -/
def Document.start (doc : Document) : Row where
  note := doc.note
  file := doc.file
  formula := []

namespace Run

section Verdicts

variable (r : Run) (files : FileIndex)

/-- All of the formulas have values, each put into the row before the next is computed. -/
inductive Computes : Keyed Expr → Row → Row → Prop
  | done (row : Row) : Computes [] row row
  | step {name : Value} {e : Expr} {formulas : Keyed Expr} {row row' : Row} {v : Value} :
      e.eval (r.scope files row none) = .ok v →
      Computes formulas { row with formula := row.formula.put name v.closeCycles } row' →
      Computes ((name, e) :: formulas) row row'

/-- The verdict on a document, by its formulas in their order and by filters. -/
inductive HasVerdict (filters : List Filter) (doc : Document) : Verdict → Prop
  | matched {row : Row} (computes : r.Computes files r.query.orderedFormulas doc.start row)
      (passes : ∀ f ∈ filters, f.passes (r.scope files row none) = .ok true) :
      HasVerdict filters doc (.matched row)
  | rejected {row : Row} {before after : List Filter} {filter : Filter}
      (computes : r.Computes files r.query.orderedFormulas doc.start row)
      (split : filters = before ++ filter :: after)
      (passes : ∀ f ∈ before, f.passes (r.scope files row none) = .ok true)
      (stops : filter.passes (r.scope files row none) = .ok false) :
      HasVerdict filters doc .rejected
  | failedFilter {row : Row} {before after : List Filter} {filter : Filter} {e : EvalError}
      (computes : r.Computes files r.query.orderedFormulas doc.start row)
      (split : filters = before ++ filter :: after)
      (passes : ∀ f ∈ before, f.passes (r.scope files row none) = .ok true)
      (stops : filter.passes (r.scope files row none) = .error (.evaluation e)) :
      HasVerdict filters doc (.failed e)
  | failedFormula {row : Row} {before after : Keyed Expr} {name : Value} {formula : Expr}
      {e : EvalError} (split : r.query.orderedFormulas = before ++ (name, formula) :: after)
      (computes : r.Computes files before doc.start row)
      (stops : formula.eval (r.scope files row none) = .error (.evaluation e)) :
      HasVerdict filters doc (.failed e)

variable {r files}

theorem computes_iff {formulas : Keyed Expr} {row row' : Row} :
    r.Computes files formulas row row' ↔ r.computeFormulas files formulas row = .ok row' := by
  constructor
  · intro h
    induction h with
    | done row => rfl
    | step hv _ ih =>
      rw [computeFormulas, hv]
      exact ih
  · intro h
    induction formulas generalizing row with
    | nil =>
      cases h
      exact .done _
    | cons formula formulas ih =>
      obtain ⟨v, hv, hrest⟩ := bind_eq_ok.mp h
      exact .step hv (ih hrest)

/-- Formulas fail where the first of them does that has no value. -/
theorem computeFormulas_eq_error_iff {formulas : Keyed Expr} {row : Row} {failure : Failure} :
    r.computeFormulas files formulas row = .error failure ↔
      ∃ before name formula after row', formulas = before ++ (name, formula) :: after ∧
        r.Computes files before row row' ∧
        formula.eval (r.scope files row' none) = .error failure := by
  constructor
  · intro h
    induction formulas generalizing row with
    | nil => cases h
    | cons formula formulas ih =>
      rcases bind_eq_error.mp h with hstops | ⟨v, hv, hrest⟩
      · exact ⟨[], formula.1, formula.2, formulas, row, rfl, .done row, hstops⟩
      · obtain ⟨before, name, stopping, after, row', rfl, hbefore, hstops⟩ := ih hrest
        exact ⟨formula :: before, name, stopping, after, row', rfl, .step hv hbefore, hstops⟩
  · rintro ⟨before, name, formula, after, row', rfl, hbefore, hstops⟩
    induction hbefore with
    | done row =>
      rw [List.nil_append, computeFormulas, hstops]
      rfl
    | step hv _ ih =>
      rw [List.cons_append, computeFormulas, hv]
      exact ih hstops

/-- A document whose formulas have values comes to what the filters say. -/
theorem rowOf_of_computes {filters : List Filter} {doc : Document} {row : Row}
    (h : r.Computes files r.query.orderedFormulas doc.start row) :
    r.rowOf files filters doc = do
      if ← Filter.allPass filters (r.scope files row none) then return some row
      else return none := by
  have hrow : r.computeFormulas files r.query.orderedFormulas
      { note := doc.note, file := doc.file, formula := [] } = .ok row := computes_iff.mp h
  rw [rowOf, hrow]
  rfl

/-- The verdict is what the run of the document comes to. -/
theorem hasVerdict_iff {filters : List Filter} {doc : Document} {verdict : Verdict} :
    r.HasVerdict files filters doc verdict ↔ r.rowOf files filters doc = verdict.outcome := by
  constructor
  · intro h
    cases h with
    | matched hrow hpasses =>
      rw [rowOf_of_computes hrow, Filter.allPass_eq_true_iff.mpr hpasses]
      rfl
    | rejected hrow hsplit hpasses hstops =>
      rw [rowOf_of_computes hrow,
        (Filter.allPass_eq_iff (by nofun)).mpr ⟨_, _, _, hsplit, hpasses, hstops⟩]
      rfl
    | failedFilter hrow hsplit hpasses hstops =>
      rw [rowOf_of_computes hrow,
        (Filter.allPass_eq_iff (by nofun)).mpr ⟨_, _, _, hsplit, hpasses, hstops⟩]
      rfl
    | failedFormula hsplit hrow hstops =>
      exact bind_eq_error.mpr (.inl
        (computeFormulas_eq_error_iff.mpr ⟨_, _, _, _, _, hsplit, hrow, hstops⟩))
  · intro h
    cases hrow : r.computeFormulas files r.query.orderedFormulas doc.start with
    | error failure =>
      have hfailure : r.rowOf files filters doc = .error failure := bind_eq_error.mpr (.inl hrow)
      rw [hfailure] at h
      obtain ⟨before, name, formula, after, row, hsplit, hbefore, hstops⟩ :=
        computeFormulas_eq_error_iff.mp hrow
      cases verdict <;> cases h
      exact .failedFormula hsplit hbefore hstops
    | ok row =>
      rw [← computes_iff] at hrow
      rw [rowOf_of_computes hrow] at h
      cases hpasses : Filter.allPass filters (r.scope files row none) with
      | error failure =>
        obtain ⟨before, filter, after, hsplit, hbefore, hstops⟩ :=
          (Filter.allPass_eq_iff (by nofun)).mp hpasses
        rw [hpasses] at h
        cases verdict <;> cases h
        exact .failedFilter hrow hsplit hbefore hstops
      | ok passes =>
        rw [hpasses] at h
        cases passes with
        | true =>
          cases verdict <;> cases h
          exact .matched hrow (Filter.allPass_eq_true_iff.mp hpasses)
        | false =>
          obtain ⟨before, filter, after, hsplit, hbefore, hstops⟩ :=
            (Filter.allPass_eq_iff (by nofun)).mp hpasses
          cases verdict <;> cases h
          exact .rejected hrow hsplit hbefore hstops

theorem HasVerdict.unique {filters : List Filter} {doc : Document} {v w : Verdict}
    (hv : r.HasVerdict files filters doc v) (hw : r.HasVerdict files filters doc w) : v = w :=
  Verdict.outcome_injective ((hasVerdict_iff.mp hv).symm.trans (hasVerdict_iff.mp hw))

/-- Documents that run without a fault have a verdict each, from which their rows and their
errors can be read off. -/
theorem verdicts_of_rowsOf {filters : List Filter} {docs : List Document} {rows : List Row}
    {errors : List (String × String)} (h : r.rowsOf files filters docs = .ok (rows, errors)) :
    ∃ verdicts, List.Forall₂ (r.HasVerdict files filters) docs verdicts ∧
      rows = verdicts.filterMap Verdict.row? ∧
      errors = (failures docs verdicts).map fun p => (p.1.file.path, rowError p.1 p.2) := by
  induction docs generalizing rows errors with
  | nil =>
    cases h
    exact ⟨[], .nil, rfl, rfl⟩
  | cons doc docs ih =>
    rw [rowsOf] at h
    split at h
    · cases h
    · next row hrow =>
      simp only [bind_eq_ok, Prod.exists] at h
      obtain ⟨rows', errors', hdocs, h⟩ := h
      obtain ⟨verdicts, hverdicts, rfl, rfl⟩ := ih hdocs
      cases h
      cases row with
      | some row =>
        exact ⟨.matched row :: verdicts, .cons (hasVerdict_iff.mpr hrow) hverdicts, rfl, rfl⟩
      | none =>
        exact ⟨.rejected :: verdicts, .cons (hasVerdict_iff.mpr hrow) hverdicts, rfl, rfl⟩
    · next e hrow =>
      simp only [bind_eq_ok, Prod.exists] at h
      obtain ⟨rows', errors', hdocs, h⟩ := h
      obtain ⟨verdicts, hverdicts, rfl, rfl⟩ := ih hdocs
      cases h
      exact ⟨.failed e :: verdicts, .cons (hasVerdict_iff.mpr hrow) hverdicts, rfl, rfl⟩

end Verdicts

/-! ## Errors in the order of paths -/

/-- The messages about failed documents, in the order of their paths. -/
theorem sortErrors_failures (failed : List (Document × EvalError)) :
    ∃ ordered : List (Document × EvalError), ordered.Perm failed ∧
      (ordered.Pairwise fun a b => a.1.file.path ≤ b.1.file.path) ∧
      sortErrors (failed.map fun p => (p.1.file.path, rowError p.1 p.2)) =
        ordered.map fun p => rowError p.1 p.2 := by
  refine ⟨failed.mergeSort fun a b => a.1.file.path ≤ b.1.file.path,
    List.mergeSort_perm failed _, Sorting.mergeSort_pairwise (fun p => p.1.file.path) failed, ?_⟩
  have hmap : (failed.mergeSort fun a b => a.1.file.path ≤ b.1.file.path).map
        (fun p => (p.1.file.path, rowError p.1 p.2)) =
      (failed.map fun p => (p.1.file.path, rowError p.1 p.2)).mergeSort fun a b => a.1 ≤ b.1 :=
    List.map_mergeSort fun _ _ _ _ => rfl
  rw [sortErrors, ← hmap, List.map_map]
  rfl

/-! ## Columns -/

/-- The keys of a mapping are the keys that were put in, each once. -/
theorem keys_ofList (pairs : List (Value × Value)) :
    Keyed.keys (Entries.ofList pairs) = addNew [] (pairs.map (·.1)) := by
  have hfold (things : Entries) :
      Keyed.keys (pairs.foldl (fun things p => things.put p.1 p.2) things) =
        addNew (Keyed.keys things) (pairs.map (·.1)) := by
    induction pairs generalizing things with
    | nil => rfl
    | cons pair pairs ih => rw [List.foldl_cons, ih, Keyed.keys_put, List.map_cons, addNew]
  exact hfold []

/-- Every key that is new is found among those before it as itself. -/
theorem mem_addNew {seen keys : List Value} {key : Value}
    (h : (seen ++ keys).Pairwise fun a b => a.sameKey b = true → a = b) :
    key ∈ addNew seen keys ↔ key ∈ seen ∨ key ∈ keys := by
  induction keys generalizing seen with
  | nil => simp only [addNew, List.not_mem_nil, or_false]
  | cons k keys ih =>
    rw [addNew, List.mem_cons]
    split
    · next hany =>
      obtain ⟨a, ha, hak⟩ := List.any_eq_true.mp hany
      obtain rfl := (List.pairwise_append.mp h).2.2 a ha k List.mem_cons_self hak
      rw [ih (h.sublist ((List.sublist_cons_self a keys).append_left seen))]
      constructor
      · exact Or.imp_right Or.inr
      · rintro (hseen | rfl | hkeys)
        · exact .inl hseen
        · exact .inl ha
        · exact .inr hkeys
    · rw [ih (by rwa [List.append_assoc]), List.mem_append, List.mem_singleton, or_assoc]

/-- Keys that are taken as new are different keys. -/
theorem addNew_pairwise {seen : List Value} (keys : List Value)
    (h : seen.Pairwise fun a b => a.sameKey b = false) :
    (addNew seen keys).Pairwise fun a b => a.sameKey b = false := by
  induction keys generalizing seen with
  | nil => exact h
  | cons k keys ih =>
    rw [addNew]
    split
    · exact ih h
    · next hany =>
      refine ih (List.pairwise_append.mpr ⟨h, List.pairwise_singleton _ _, ?_⟩)
      intro a ha b hb
      obtain rfl := List.mem_singleton.mp hb
      exact Bool.eq_false_iff.mpr fun hab => hany (List.any_eq_true.mpr ⟨a, ha, hab⟩)

theorem isPrefix_addNew (seen keys : List Value) : seen <+: addNew seen keys := by
  induction keys generalizing seen with
  | nil => exact List.prefix_rfl
  | cons k keys ih =>
    rw [addNew]
    split
    · exact ih seen
    · exact (List.prefix_append seen [k]).trans (ih _)

theorem inferredColumns_pairwise (formulas : List Value) (rows : List Row) :
    (inferredColumns formulas rows).Pairwise fun a b => a.sameKey b = false := by
  rw [inferredColumns]
  split
  · next column hcolumn =>
    obtain ⟨rfl, -⟩ := List.cons_prefix_cons.mp (hcolumn ▸ isPrefix_addNew _ _)
    exact List.pairwise_pair.mpr rfl
  · exact addNew_pairwise _ (List.pairwise_singleton _ _)

/-- Columns that are one key are one column. -/
theorem columnsOf_pairwise {r : Run} {view : View} {rows : List Row} {columns : List Value}
    (h : r.columnsOf view rows = .ok columns) :
    columns.Pairwise fun a b => a.sameKey b = true → a = b := by
  have htexts (texts : List String) :
      (texts.map Value.string).Pairwise fun a b => a.sameKey b = true → a = b := by
    refine List.pairwise_map.mpr (List.pairwise_of_forall fun s t hst => ?_)
    rw [Value.sameKey, beq_iff_eq] at hst
    rw [hst]
  rcases columnsOf_eq_ok h with ⟨names, -, rfl⟩ | ⟨texts, rfl⟩
  · refine (inferredColumns_pairwise names rows).imp fun hab hba => ?_
    rw [hab] at hba
    cases hba
  · exact htexts texts

/-! ## Rows with their columns -/

theorem Computes.projected_eq {r : Run} {files : FileIndex} {formulas : Keyed Expr}
    {row row' : Row} (h : r.Computes files formulas row row') :
    row'.projected = row.projected := by
  induction h with
  | done row => rfl
  | step _ _ ih => exact ih

/-- A document that matched gives a row whose columns have no values yet. -/
theorem HasVerdict.withoutColumns_eq {r : Run} {files : FileIndex} {filters : List Filter}
    {doc : Document} {row : Row} (h : r.HasVerdict files filters doc (.matched row)) :
    row.withoutColumns = row := by
  cases h with
  | matched hrow _ =>
    have hprojected : row.projected = [] := hrow.projected_eq
    rw [Row.withoutColumns, ← hprojected]

theorem withoutColumns_of_verdicts {r : Run} {files : FileIndex} {filters : List Filter}
    {docs : List Document} {verdicts : List Verdict}
    (h : List.Forall₂ (r.HasVerdict files filters) docs verdicts) :
    ∀ row ∈ verdicts.filterMap Verdict.row?, row.withoutColumns = row := by
  intro row hrow
  obtain ⟨verdict, hverdict, hmatched⟩ := List.mem_filterMap.mp hrow
  obtain ⟨doc, -, hdoc⟩ := exists_of_mem_left h.flip hverdict
  cases verdict with
  | matched row' =>
    cases hmatched
    exact hdoc.withoutColumns_eq
  | _ => cases hmatched

theorem forRows_forall₂ {α : Type} {f : Row → Except Fault (Warned α)} {rows : List Row}
    {as : List α} {warnings : List String} (h : forRows f rows = .ok (as, warnings)) :
    List.Forall₂ (fun row a => ∃ found, f row = .ok (a, found)) rows as := by
  induction rows generalizing as warnings with
  | nil =>
    cases h
    exact .nil
  | cons row rows ih =>
    simp only [forRows, bind_eq_ok, Prod.exists] at h
    obtain ⟨a, found, hrow, as', rest, hrows, h⟩ := h
    cases h
    exact .cons ⟨found, hrow⟩ (ih hrows)

/-- Projecting changes nothing in a row but its columns, which are those of the view. -/
theorem projectedRow_eq_ok {r : Run} {files : FileIndex} {columns : List Value} {row row' : Row}
    {warnings : List String} (h : r.projectedRow files columns row = .ok (row', warnings)) :
    row'.withoutColumns = row.withoutColumns ∧ Keyed.keys row'.projected = addNew [] columns := by
  simp only [projectedRow, bind_eq_ok, Prod.exists] at h
  obtain ⟨values, found, hcells, h⟩ := h
  cases h
  have hlength : columns.length = values.length := (cells_eq_ok hcells).length_eq
  have hcolumns : (columns.zip values).map (·.1) = columns :=
    List.map_fst_zip (Nat.le_of_eq hlength)
  exact ⟨rfl, by rw [keys_ofList, hcolumns]⟩

theorem projectedRows_eq_ok {r : Run} {files : FileIndex} {columns : List Value}
    {kept rows : List Row} {warnings : List String}
    (h : forRows (r.projectedRow files columns) kept = .ok (rows, warnings)) :
    rows.map Row.withoutColumns = kept.map Row.withoutColumns ∧
      ∀ row ∈ rows, Keyed.keys row.projected = addNew [] columns := by
  have hrows := forRows_forall₂ h
  clear h
  induction hrows with
  | nil => exact ⟨rfl, List.forall_mem_nil _⟩
  | cons hrow _ ih =>
    obtain ⟨found, hrow⟩ := hrow
    obtain ⟨hsame, hkeys⟩ := projectedRow_eq_ok hrow
    rw [List.map_cons, List.map_cons, hsame, ih.1]
    exact ⟨rfl, List.forall_mem_cons.mpr ⟨hkeys, ih.2⟩⟩

/-! ## Views that are changed -/

/-- Where the views are changed but keep their names, the changed view is found under the name. -/
theorem viewOf_map {q q' : PreparedQuery} {f : View → View} {name : Option String} {view : View}
    (hname : ∀ v, (f v).name = v.name) (hviews : q'.spec.views = q.spec.views.map f)
    (h : viewOf q name = .ok view) : viewOf q' name = .ok (f view) := by
  unfold viewOf at h ⊢
  rw [hviews]
  cases name with
  | none =>
    cases hspec : q.spec.views with
    | nil =>
      rw [hspec] at h
      cases h
    | cons first views =>
      rw [hspec] at h
      cases h
      rfl
  | some name =>
    have hsame : ((·.name == name) ∘ f : View → Bool) = (·.name == name) := by
      funext v
      rw [Function.comp_apply, hname]
    dsimp only at h ⊢
    rw [List.find?_map, hsame]
    cases hfound : q.spec.views.find? (·.name == name) with
    | none =>
      rw [hfound] at h
      cases h
    | some found =>
      rw [hfound] at h
      cases h
      rfl

/-! ## The limit -/

/-- The first rows, as many as a limit allows. -/
def firstOf : Option Nat → List Row → List Row
  | none, rows => rows
  | some n, rows => rows.take n

/-- The run with another limit in every view. -/
def withLimit (r : Run) (limit : Option Nat) : Run :=
  { r with query := { r.query with spec := { r.query.spec with
      views := r.query.spec.views.map (·.withLimit limit) } } }

theorem viewOf_withLimit {r : Run} {name : Option String} {view : View} (limit : Option Nat)
    (h : viewOf r.query name = .ok view) :
    viewOf (r.withLimit limit).query name = .ok (view.withLimit limit) :=
  viewOf_map (f := (·.withLimit limit)) (fun _ => rfl) rfl h

namespace Stages

variable {r : Run} {view : View}

/-- The rows are the first ones of those in order, with values in the columns. -/
theorem rows_eq (x : Stages r view) {limit : Option Nat}
    (hlimit : view.limit = limit.map fun n : Nat => .int n) :
    x.rows.map Row.withoutColumns = (firstOf limit x.ordered).map Row.withoutColumns := by
  have hkept : x.kept = firstOf limit x.ordered := by
    have hlimited := x.limited_eq
    rw [hlimit] at hlimited
    cases limit with
    | none => exact (Except.ok.inj hlimited).symm
    | some n => exact (Except.ok.inj hlimited).symm
  rw [← hkept]
  exact (projectedRows_eq_ok x.projected_eq).1

/-- Two runs that differ in the views go through the same stages until the rows are in order, if the
views have one name and one order. -/
theorem ordered_eq_of_views {spec : QuerySpec} {view' : View} (x : Stages r view)
    (y : Stages { r with query := { r.query with spec := spec } } view')
    (hname : view'.name = view.name) (hsort : view'.sort = view.sort) :
    y.chosen = x.chosen ∧ y.errors = x.errors ∧ y.ordered = x.ordered := by
  have hrowsOf : rowsOf { r with query := { r.query with spec := spec } } = r.rowsOf :=
    rowsOf_congr rfl rfl
  have hrows : r.rowsOf r.files (r.query.filtersOf view'.name) r.documents =
      .ok (y.chosen, y.errors) := by
    rw [← hrowsOf]
    exact y.rowsOf_eq
  rw [hname, x.rowsOf_eq] at hrows
  obtain ⟨hchosen, herrors⟩ := Prod.mk.inj (Except.ok.inj hrows)
  have hsorted : r.sorted r.files view'.sort y.chosen = .ok (y.ordered, y.sortWarnings) :=
    y.sorted_eq
  rw [hsort, ← hchosen, x.sorted_eq] at hsorted
  exact ⟨hchosen.symm, herrors.symm, (Prod.mk.inj (Except.ok.inj hsorted)).1.symm⟩

/-- Up to the limit, two runs that differ in the limit go through the same stages. -/
theorem withLimit_eq {limit : Option Nat} (x : Stages r view)
    (y : Stages (r.withLimit limit) (view.withLimit limit)) :
    y.chosen = x.chosen ∧ y.errors = x.errors ∧ y.ordered = x.ordered :=
  x.ordered_eq_of_views y rfl rfl

end Stages

/-- No document is lost, counted twice or left out of the count, whether or not documents share
their paths.  Each has exactly one verdict; the count is of those that matched, every one that
failed has its message in the order of paths, and the rows are the first of those that matched,
in one order for all limits.  What a row holds under its columns stands under exactly these. -/
theorem result_conserves {r : Run} {name : Option String} {view : View} {limit : Option Nat}
    {res : Result} (hview : viewOf r.query name = .ok view)
    (hlimit : view.limit = limit.map fun n : Nat => .int n) (h : r.result name = .ok res) :
    (∀ doc ∈ r.documents, ∃! verdict,
      r.HasVerdict r.files (r.query.filtersOf view.name) doc verdict) ∧
    ∃ (verdicts : List Verdict) (failed : List (Document × EvalError)) (ordered : List Row),
      List.Forall₂ (r.HasVerdict r.files (r.query.filtersOf view.name)) r.documents verdicts ∧
      failed.Perm (failures r.documents verdicts) ∧
      (failed.Pairwise fun a b => a.1.file.path ≤ b.1.file.path) ∧
      ordered.Perm (verdicts.filterMap Verdict.row?) ∧
      res.stats.matchedRows = verdicts.countP (·.row?.isSome) ∧
      res.diagnostics.errors = failed.map (fun p => rowError p.1 p.2) ∧
      res.rows.map Row.withoutColumns = firstOf limit ordered ∧
      (∀ other res', (r.withLimit other).result name = .ok res' →
        res'.stats.matchedRows = res.stats.matchedRows ∧
        res'.diagnostics.errors = res.diagnostics.errors ∧
        res'.rows.map Row.withoutColumns = firstOf other ordered) ∧
      ∀ row ∈ res.rows, ∀ column,
        column ∈ Keyed.keys row.projected ↔ column ∈ res.columns := by
  obtain ⟨found, hfound, x, rfl⟩ := result_eq_ok.mp h
  obtain rfl := Except.ok.inj (hfound.symm.trans hview)
  obtain ⟨verdicts, hverdicts, hchosen, herrors⟩ := verdicts_of_rowsOf x.rowsOf_eq
  obtain ⟨failed, hfailed, hpaths, hmessages⟩ :=
    sortErrors_failures (failures r.documents verdicts)
  rw [← herrors] at hmessages
  have hordered : x.ordered.Perm (verdicts.filterMap Verdict.row?) :=
    hchosen ▸ sorted_perm x.sorted_eq
  have hplain : ∀ row ∈ x.ordered, row.withoutColumns = row := fun row hrow =>
    withoutColumns_of_verdicts hverdicts row (hordered.mem_iff.mp hrow)
  have hfirst (bound : Option Nat) :
      (firstOf bound x.ordered).map Row.withoutColumns = firstOf bound x.ordered := by
    refine (List.map_congr_left fun row hrow => hplain row ?_).trans (List.map_id _)
    cases bound with
    | none => exact hrow
    | some n => exact List.mem_of_mem_take hrow
  have hcount : x.chosen.length = verdicts.countP (·.row?.isSome) := by
    rw [hchosen, List.length_filterMap_eq_countP]
  refine ⟨?_, verdicts, failed, x.ordered, hverdicts, hfailed, hpaths, hordered, hcount, hmessages,
    (x.rows_eq hlimit).trans (hfirst limit), ?_, ?_⟩
  · intro doc hdoc
    obtain ⟨verdict, -, hverdict⟩ := exists_of_mem_left hverdicts hdoc
    exact ⟨verdict, hverdict, fun other hother => hother.unique hverdict⟩
  · intro other res' h'
    obtain ⟨_, hview', y, rfl⟩ := result_eq_ok.mp h'
    obtain rfl := Except.ok.inj (hview'.symm.trans (viewOf_withLimit other hview))
    obtain ⟨hsame, hlost, hmoved⟩ := x.withLimit_eq y
    refine ⟨?_, ?_, ?_⟩
    · rw [Stages.result, Stages.result, hsame]
    · rw [Stages.result, Stages.result, hlost]
    · rw [← hmoved] at hfirst ⊢
      have hother : (found.withLimit other).limit = other.map fun n : Nat => .int n := rfl
      exact (y.rows_eq hother).trans (hfirst other)
  · intro row hrow column
    rw [(projectedRows_eq_ok x.projected_eq).2 row hrow,
      mem_addNew (columnsOf_pairwise x.columnsOf_eq)]
    exact or_iff_right List.not_mem_nil

/-- A document of which nothing is known but its path and perhaps a score. -/
def scoredDocument (path : String) (score : Option Int) : Document where
  note := score.toList.map fun n => (.string "score", .int n)
  file := { name := path, path }

/-- One row of those with a score, from documents of which two share a path and match, one has
no score and one scores nothing. -/
def sharedPath : Run where
  query := {
    spec := { views := [{ name := "scores", columns := some ["score"], limit := some (.int 1) }] }
    strict := true
    globalFilter := none
    viewFilters := [("scores", some (.expression (.name "score")))]
    formulas := []
    formulaOrder := []
    summaries := [] }
  documents := [scoredDocument "a" (some 1), scoredDocument "b" none, scoredDocument "a" (some 2),
    scoredDocument "c" (some 0)]
  now := default
  library := .empty

theorem result_conserves_sharedPath :
    ∃ res, sharedPath.result none = .ok res ∧ res.rows.length = 1 ∧ res.stats.matchedRows = 2 ∧
      ∀ other res', (sharedPath.withLimit other).result none = .ok res' →
        res'.stats.matchedRows = 2 := by
  obtain ⟨res, h⟩ : ∃ res, sharedPath.result none = .ok res := ⟨_, rfl⟩
  obtain ⟨view, hview⟩ : ∃ view, viewOf sharedPath.query none = .ok view := ⟨_, rfl⟩
  have hlimit : view.limit = (some 1 : Option Nat).map fun n : Nat => .int n := by
    cases hview
    rfl
  obtain ⟨-, verdicts, failed, ordered, -, -, -, -, -, -, -, hother, -⟩ :=
    result_conserves hview hlimit h
  have hcount : res.stats.matchedRows = 2 := by
    cases h
    rfl
  refine ⟨res, h, ?_, hcount, fun other res' h' => (hother other res' h').1.trans hcount⟩
  cases h
  rfl

end Run

end NoteQuery
