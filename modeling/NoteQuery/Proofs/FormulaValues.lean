/-
Formulas agree with each other.

Each formula is computed from those before it, and its value is kept.  Formulas that come later are
put under other names, so a formula that has read nothing but what it refers to, which was there
already, would have the same value in the row as it is in the end (`Run.formulas_agree`).  A text
refers to a formula by `formula.` and a name, though, while expressions can read formulas in other
ways: by an index, or as the whole mapping that a method is called on.  What is read in such a way
may not have been computed.
-/
import NoteQuery.Proofs.Conservation
import NoteQuery.Proofs.FormulaOrder
import NoteQuery.Proofs.References

namespace NoteQuery

open Value

/-! ## Documents -/

/-- The document stands for itself: nothing in it is a mapping of formulas. -/
def Document.Settled (doc : Document) : Prop :=
  AllSettled (Entries.parts doc.note) ∧ (Value.file doc.file).Settled

namespace FileIndex

variable {P : FileRecord Value → Prop} {index : FileIndex}

theorem forall_mem_put (h : ∀ f ∈ index, P f.2) {file : FileRecord Value} (hfile : P file)
    (key : String) : ∀ f ∈ index.put key file, P f.2 := by
  induction index with
  | nil => exact List.forall_mem_singleton.mpr hfile
  | cons f index ih =>
    obtain ⟨hf, hrest⟩ := List.forall_mem_cons.mp h
    rw [put]
    split
    · exact List.forall_mem_cons.mpr ⟨hfile, hrest⟩
    · exact List.forall_mem_cons.mpr ⟨hf, ih hrest⟩

theorem forall_mem_putNew (h : ∀ f ∈ index, P f.2) {file : FileRecord Value} (hfile : P file)
    (key : String) : ∀ f ∈ index.putNew key file, P f.2 := by
  rw [putNew]
  split
  · exact h
  · exact List.forall_mem_append.mpr ⟨h, List.forall_mem_singleton.mpr hfile⟩

theorem forall_mem_putNames (h : ∀ f ∈ index, P f.2) {file : FileRecord Value} (hfile : P file) :
    ∀ f ∈ index.putNames file, P f.2 := by
  have hname := forall_mem_putNew h hfile file.name
  rw [putNames]
  split
  · exact hname
  · exact forall_mem_putNew hname hfile file.basename

end FileIndex

/-- What is found by name is a file of the documents. -/
theorem Document.forall_mem_index {docs : List Document} {P : FileRecord Value → Prop}
    (h : ∀ doc ∈ docs, P doc.file) : ∀ f ∈ index docs, P f.2 := by
  have hfiles : ∀ file ∈ (sortByPath docs).map Document.file, P file :=
    List.forall_mem_map.mpr fun doc hdoc =>
      h doc ((List.mergeSort_perm docs _).mem_iff.mp hdoc)
  have hfold (put : FileIndex → FileRecord Value → FileIndex)
      (hput : ∀ index file, (∀ f ∈ index, P f.2) → P file → ∀ f ∈ put index file, P f.2)
      (index : FileIndex) (hindex : ∀ f ∈ index, P f.2) :
      ∀ f ∈ ((sortByPath docs).map Document.file).foldl put index, P f.2 := by
    generalize (sortByPath docs).map Document.file = files at hfiles
    induction files generalizing index with
    | nil => exact hindex
    | cons file files ih =>
      obtain ⟨hfile, hrest⟩ := List.forall_mem_cons.mp hfiles
      exact ih _ (hput index file hindex hfile) hrest
  exact hfold _ (fun _ _ hindex hfile => FileIndex.forall_mem_putNames hindex hfile) _
    (hfold _ (fun _ file hindex hfile => FileIndex.forall_mem_put hindex hfile file.path) []
      (List.forall_mem_nil _))

/-! ## Computing one after the other -/

/-- Expressions under the names that they are given. -/
def named (expr : String → Expr) (names : List String) : Keyed Expr :=
  names.map fun name => (.string name, expr name)

namespace Run

variable {r : Run} {files : FileIndex} {expr : String → Expr}

/-- All that a row is computed from is settled. -/
structure SettledAt (files : FileIndex) (row : Row) : Prop where
  note : AllSettled (Entries.parts row.note)
  file : (Value.file row.file).Settled
  formulas : AllSettled (Entries.parts row.formula)
  files : ∀ f ∈ files, (Value.file f.2).Settled

namespace SettledAt

variable {row : Row}

theorem frames (h : SettledAt files row) {allowed : String → Prop} {formula : Entries}
    (hagrees : ∀ name, allowed name →
      Entries.get? formula name = Entries.get? row.formula name) :
    (r.scope files row none).Frames allowed formula where
  note := h.note
  file := fun _ hfile => Option.some.inj hfile ▸ h.file
  formulas := h.formulas
  identity := fun _ hentries => Option.some.inj hentries ▸ Entries.ofTexts_parts Settled.hereditary
    (List.forall_mem_cons.mpr ⟨.string _, List.forall_mem_singleton.mpr (.string _)⟩)
  projected := nofun
  bindings := List.forall_mem_nil _
  files := h.files
  agrees := hagrees

/-- Values are settled, as long as formulas are read by name. -/
theorem value (h : SettledAt files row) {e : Expr} {byName byIndex : String → Prop}
    (he : e.ReadsOnly byName byIndex) {v : Value}
    (hv : e.eval (r.scope files row none) = .ok v) : v.Settled := by
  have hany : e.ReadsOnly (fun _ => True) fun _ => True :=
    he.mono (fun _ _ => trivial) fun _ _ => trivial
  have hframes : (r.scope files row none).Frames (fun _ => True) row.formula :=
    h.frames fun _ _ => rfl
  exact (Expr.eval_steady hany ⟨hframes, rfl⟩).gives v hv

theorem put (h : SettledAt files row) {name v : Value} (hname : name.Settled) (hv : v.Settled) :
    SettledAt files { row with formula := row.formula.put name v } :=
  ⟨h.note, h.file, Entries.put_parts h.formulas hname hv, h.files⟩

/-- A row to which nothing has been computed yet. -/
theorem start (hdocs : ∀ doc ∈ r.documents, doc.Settled) {doc : Document}
    (hdoc : doc ∈ r.documents) : SettledAt r.files doc.start where
  note := (hdocs doc hdoc).1
  file := (hdocs doc hdoc).2
  formulas := List.forall_mem_nil _
  files := Document.forall_mem_index (P := fun file => (Value.file file).Settled)
    fun doc hdoc => (hdocs doc hdoc).2

end SettledAt

namespace Computes

variable {row row' : Row} {names before after : List String}

theorem append (h : r.Computes files (named expr (before ++ after)) row row') :
    ∃ between, r.Computes files (named expr before) row between ∧
      r.Computes files (named expr after) between row' := by
  induction before generalizing row with
  | nil => exact ⟨row, .done row, h⟩
  | cons name before ih =>
    cases h with
    | step hv hrest =>
      obtain ⟨between, hbefore, hafter⟩ := ih hrest
      exact ⟨between, .step hv hbefore, hafter⟩

/-- Nothing but the mapping of formulas changes. -/
theorem scope_eq {formulas : Keyed Expr} (h : r.Computes files formulas row row') :
    r.scope files row' none = (r.scope files row none).withFormula row'.formula := by
  induction h with
  | done row => rfl
  | step _ _ ih => exact ih

/-- Under other names than those of the formulas nothing changes. -/
theorem get?_eq (h : r.Computes files (named expr names) row row') {other : String}
    (hother : other ∉ names) :
    Entries.get? row'.formula other = Entries.get? row.formula other := by
  induction names generalizing row with
  | nil =>
    cases h
    rfl
  | cons name names ih =>
    rw [List.mem_cons, not_or] at hother
    cases h with
    | @step _ _ _ _ _ v hv hrest =>
      exact (ih hrest hother.2).trans
        ((Keyed.find?_put row.formula name v.closeCycles other).trans (if_neg (Ne.symm hother.1)))

/-- As long as formulas are read by name, what a row is computed from is settled. -/
theorem settled {formulas : Keyed Expr} (h : r.Computes files formulas row row')
    (hrow : SettledAt files row)
    (hformulas : ∀ f ∈ formulas, f.1.Settled ∧ f.2.ReadsOnly (fun _ => True) fun _ => True) :
    SettledAt files row' := by
  induction h with
  | done row => exact hrow
  | step hv _ ih =>
    obtain ⟨⟨hname, hreads⟩, hrest⟩ := List.forall_mem_cons.mp hformulas
    have hsettled := hrow.value hreads hv
    rw [hsettled.closeCycles_eq] at ih
    exact ih (hrow.put hname hsettled) hrest

theorem settledAt (h : r.Computes files (named expr names) row row') (hrow : SettledAt files row)
    {byName byIndex : String → String → Prop}
    (hreads : ∀ name ∈ names, (expr name).ReadsOnly (byName name) (byIndex name)) :
    SettledAt files row' := by
  refine h.settled hrow (List.forall_mem_map.mpr fun name hname => ⟨.string name, ?_⟩)
  exact (hreads name hname).mono (fun _ _ => trivial) fun _ _ => trivial

/-- A formula that has read nothing but what was there before it has the same value in the end. -/
theorem value_eq {name : String}
    (h : r.Computes files (named expr (before ++ name :: after)) row row')
    (hrow : SettledAt files row) (hnew : name ∉ after) {allowed : String → String → Prop}
    (hreads : ∀ f ∈ before ++ name :: after, (expr f).ReadsOnly (allowed f) (allowed f))
    (hallowed : ∀ n, allowed name n → n ∉ name :: after) :
    ∃ v, (expr name).eval (r.scope files row' none) = .ok v ∧
      Entries.get? row'.formula name = some v := by
  obtain ⟨hbefore, hrest⟩ := List.forall_mem_append.mp hreads
  have he := hrest name List.mem_cons_self
  obtain ⟨between, hfront, hback⟩ := h.append
  have hbetween : SettledAt files between := hfront.settledAt hrow hbefore
  have hframes : (r.scope files between none).Frames (allowed name) row'.formula :=
    hbetween.frames fun n hn => hback.get?_eq (hallowed n hn)
  have hsame := (Expr.eval_steady he ⟨hframes, rfl⟩).same
  rw [← hback.scope_eq] at hsame
  cases hback with
  | @step _ _ _ _ _ v hv hafter =>
    refine ⟨v, hsame.trans hv, (hafter.get?_eq hnew).trans ?_⟩
    refine (Keyed.find?_put between.formula name v.closeCycles name).trans ?_
    rw [if_pos rfl, (hbetween.value he hv).closeCycles_eq]

end Computes

end Run

/-! ## Prepared formulas -/

namespace PreparedQuery

/-- What is read under a key is the expression of the text that stands there. -/
theorem find?_of_readNamed {sources : Keyed String} {formulas : Keyed Expr}
    (h : readNamed sources = .ok formulas) {key : Value} {source : String}
    (hsource : sources.find? key = some source) :
    ∃ e, Expr.parse source = .ok e ∧ formulas.find? key = some e := by
  induction sources generalizing formulas with
  | nil => cases hsource
  | cons entry sources ih =>
    obtain ⟨name, text⟩ := entry
    rw [readNamed, List.mapM_cons] at h
    obtain ⟨formula, hformula, hrest⟩ := bind_eq_ok.mp h
    obtain ⟨e, he, hnamed⟩ := bind_eq_ok.mp hformula
    obtain ⟨rest, hsources, hcons⟩ := bind_eq_ok.mp hrest
    cases hnamed
    cases hcons
    rw [Keyed.find?_cons] at hsource ⊢
    split at hsource
    · next hkey =>
      cases hsource
      exact ⟨e, mapError_eq_ok.mp he, if_pos hkey⟩
    · next hkey =>
      rw [if_neg hkey]
      exact ih hsources hsource

end PreparedQuery

namespace FormulaTexts

variable {fs : FormulaTexts}

theorem Arranged.mem_of_split {before after : List String} {f g : String}
    (h : fs.Arranged (before ++ f :: after)) (hrefers : fs.Refers f g) : g ∈ before := by
  have hnodup := h.nodup
  rw [List.nodup_append, List.nodup_cons] at hnodup
  have hlt := h.idxOf_lt (List.mem_append_right _ List.mem_cons_self) hrefers
  have hf : f ∉ before := fun hf => hnodup.2.2 f hf f List.mem_cons_self rfl
  rw [List.idxOf_append_of_notMem hf, List.idxOf_cons_self, Nat.add_zero] at hlt
  by_contra hg
  rw [List.idxOf_append_of_notMem hg] at hlt
  omega

/-- Expressions take formulas only by their names, and their texts refer to all declared ones that
they take.  For members it is enough if the text writes its references in one piece. -/
def ReadsReferred (fs : FormulaTexts) : Prop :=
  ∀ f source e, (f, source) ∈ fs.texts → Expr.parse source = .ok e →
    e.ReadsOnly
      (fun n => n ∈ fs.names →
        n ∈ FormulaOrder.references source ∨ FormulaOrder.writtenPlainly source = true)
      (fun n => n ∈ fs.names → n ∈ FormulaOrder.references source)

theorem ReadsReferred.readsOnly (h : fs.ReadsReferred) {f source : String} {e : Expr}
    (hsource : (f, source) ∈ fs.texts) (hparse : Expr.parse source = .ok e) :
    e.ReadsOnly (fun n => n ∈ fs.names → fs.Refers f n) fun n => n ∈ fs.names → fs.Refers f n := by
  have hreads := h f source e hsource hparse
  have hrefers {n : String} (hn : n ∈ fs.names → n ∈ FormulaOrder.references source)
      (hname : n ∈ fs.names) : fs.Refers f n := ⟨source, hsource, hn hname, hname⟩
  by_cases hplain : FormulaOrder.writtenPlainly source = true
  · exact (hreads.of_parse hparse hplain).mono (fun n hn => hrefers fun _ => hn.2)
      fun n hn => hrefers hn
  · exact hreads.mono (fun n hn => hrefers fun hname => (hn hname).resolve_right hplain)
      fun n hn => hrefers hn

/-- A prepared query computes its formulas in an order of computation. -/
theorem exists_orderedFormulas {spec : QuerySpec} {strict : Bool} {q : PreparedQuery}
    (hquery : PreparedQuery.ofSpec spec strict = .ok q) (hformulas : spec.formulas = fs.keyed) :
    ∃ (done : List String) (expr : String → Expr), fs.Arranged done ∧ done.Perm fs.names ∧
      (∀ f source, (f, source) ∈ fs.texts → Expr.parse source = .ok (expr f)) ∧
      q.orderedFormulas = named expr done := by
  obtain ⟨-, horder, hread⟩ := PreparedQuery.formulas_of_ofSpec hquery
  rw [hformulas] at horder hread
  rcases fs.order_cases with ⟨done, hdone, harranged, hperm⟩ | ⟨name, hcircle, -⟩
  case inr => cases hcircle.symm.trans horder
  have hexpr (f : String) : ∃ e, ∀ source, (f, source) ∈ fs.texts →
      Expr.parse source = .ok e ∧ q.formulas.find? (.string f) = some e := by
    by_cases hf : f ∈ fs.names
    · obtain ⟨source, hsource⟩ := mem_names_iff.mp hf
      have hlookup := lookup_eq_some_iff.mpr hsource
      obtain ⟨e, hparse, hfind⟩ :=
        PreparedQuery.find?_of_readNamed hread ((find?_keyed f).trans hlookup)
      refine ⟨e, fun other hother => ?_⟩
      obtain rfl := Option.some.inj (hlookup.symm.trans (lookup_eq_some_iff.mpr hother))
      exact ⟨hparse, hfind⟩
    · exact ⟨.name f, fun source hsource => absurd (mem_names_iff.mpr ⟨source, hsource⟩) hf⟩
  choose expr hexpr using hexpr
  refine ⟨done, expr, harranged, hperm, fun f source hsource => (hexpr f source hsource).1, ?_⟩
  rw [PreparedQuery.orderedFormulas, ← Except.ok.inj (hdone.symm.trans horder),
    List.filterMap_map]
  refine (List.filterMap_congr fun f hf => ?_).trans (congrFun List.filterMap_eq_map' done)
  obtain ⟨source, hsource⟩ := mem_names_iff.mp (hperm.mem_iff.mp hf)
  rw [Function.comp_apply, (hexpr f source hsource).2]
  rfl

end FormulaTexts

namespace Run

/-- Formulas that read what they refer to agree with each other: each has the value in the row as
it is in the end that was computed for it, and whatever declared formula it reads was computed
before. -/
theorem formulas_agree {r : Run} {spec : QuerySpec} {strict : Bool} {fs : FormulaTexts}
    (hquery : PreparedQuery.ofSpec spec strict = .ok r.query)
    (hformulas : spec.formulas = fs.keyed) (hreads : fs.ReadsReferred)
    (hdocs : ∀ doc ∈ r.documents, doc.Settled) {doc : Document} (hdoc : doc ∈ r.documents)
    {row : Row}
    (hrow : r.computeFormulas r.files r.query.orderedFormulas doc.start = .ok row)
    {f source : String} (hsource : (f, source) ∈ fs.texts) :
    ∃ (e : Expr) (v : Value) (before after : Keyed Expr), Expr.parse source = .ok e ∧
      r.query.orderedFormulas = before ++ (.string f, e) :: after ∧
      e.ReadsOnly (fun n => n ∈ fs.names → Value.string n ∈ Keyed.keys before)
        (fun n => n ∈ fs.names → Value.string n ∈ Keyed.keys before) ∧
      e.eval (r.scope r.files row none) = .ok v ∧ Entries.get? row.formula f = some v := by
  obtain ⟨done, expr, harranged, hperm, hparse, hordered⟩ :=
    FormulaTexts.exists_orderedFormulas hquery hformulas
  have hdone {g : String} : g ∈ done ↔ ∃ text, (g, text) ∈ fs.texts :=
    hperm.mem_iff.trans FormulaTexts.mem_names_iff
  obtain ⟨before, after, rfl⟩ := List.append_of_mem (hdone.mpr ⟨source, hsource⟩)
  have hnodup := harranged.nodup
  rw [List.nodup_append, List.nodup_cons] at hnodup
  obtain ⟨-, ⟨hnew, -⟩, hapart⟩ := hnodup
  have hrefers (g : String) (hg : g ∈ before ++ f :: after) :
      (expr g).ReadsOnly (fun n => n ∈ fs.names → fs.Refers g n)
        fun n => n ∈ fs.names → fs.Refers g n := by
    obtain ⟨text, htext⟩ := hdone.mp hg
    exact hreads.readsOnly htext (hparse g text htext)
  have hstart : SettledAt r.files doc.start := .start hdocs hdoc
  have hcomputes := computes_iff.mpr hrow
  rw [hordered] at hcomputes
  obtain ⟨v, hv, hget⟩ := hcomputes.value_eq hstart hnew hrefers fun n hn hlater => by
    -- what the formula may read and is no formula yet is no formula at all
    have hn' : n ∈ before ++ f :: after := List.mem_append_right _ hlater
    have hbefore := harranged.mem_of_split (hn (hperm.mem_iff.mp hn'))
    exact hapart n hbefore n hlater rfl
  refine ⟨expr f, v, named expr before, named expr after, hparse f source hsource, ?_, ?_, hv,
    hget⟩
  · rw [hordered, named, List.map_append, List.map_cons]
    rfl
  · have hmem (n : String) (hn : n ∈ fs.names → fs.Refers f n) (hname : n ∈ fs.names) :
        Value.string n ∈ Keyed.keys (named expr before) := by
      rw [Keyed.keys, named, List.map_map]
      exact List.mem_map.mpr ⟨n, harranged.mem_of_split (hn hname), rfl⟩
    have hf : f ∈ before ++ f :: after := List.mem_append_right _ List.mem_cons_self
    exact (hrefers f hf).mono hmem hmem

/-- A formula of a given text beside one that is 1. -/
def twoFormulas (text : String) : FormulaTexts where
  texts := [("a", text), ("b", "1")]
  distinct := show ["a", "b"].Nodup by decide

/-- A document of which nothing is known but its path. -/
def onlyDocument : Document where
  note := []
  file := { name := "a.md", path := "a.md" }

/-- Two formulas, computed for one document in an order. -/
def ofTwo (text : String) (e : Expr) (order : List String) : Run where
  query := {
    spec := { views := [{ name := "all" }], formulas := (twoFormulas text).keyed }
    strict := true
    globalFilter := none
    viewFilters := [("all", none)]
    formulas := [(.string "a", e), (.string "b", .literal (.number (.int 1)) "1")]
    formulaOrder := order.map .string
    summaries := [] }
  documents := [onlyDocument]
  now := default
  library := .builtin

theorem parse_one : Expr.parse "1" = .ok (.literal (.number (.int 1)) "1") := by
  decide +kernel

theorem ofSpec_ofTwo {text : String} {e : Expr} {order : List String}
    (hparse : Expr.parse text = .ok e)
    (horder : FormulaOrder.order (twoFormulas text).keyed = .ok (order.map .string)) :
    PreparedQuery.ofSpec (ofTwo text e order).query.spec true = .ok (ofTwo text e order).query := by
  have hread : PreparedQuery.readNamed (twoFormulas text).keyed =
      .ok [(.string "a", e), (.string "b", .literal (.number (.int 1)) "1")] := by
    simp only [PreparedQuery.readNamed, twoFormulas, FormulaTexts.keyed, List.map_cons,
      List.map_nil, List.mapM_cons, List.mapM_nil, hparse, parse_one]
    rfl
  simp only [PreparedQuery.ofSpec, PreparedQuery.withoutGlobalFilter, ofTwo, horder, hread]
  rfl

/-- The order of two formulas, from what is found in the text of the first. -/
theorem order_twoFormulas {text : String} {found : List String}
    (hfound : FormulaOrder.references text = found) :
    FormulaOrder.order (twoFormulas text).keyed = (FormulaOrder.arrange
      [(.string "a", (found.map Value.string).filter fun other =>
        ((twoFormulas text).keyed.find? other).isSome), (.string "b", [])]
      [.string "a", .string "b"]).mapError .query := by
  have hsort : Sorting.sort FormulaOrder.nameBefore (twoFormulas text).keyed.keys =
      .ok [.string "a", .string "b"] := rfl
  have hone : FormulaOrder.references "1" = [] := by decide
  have hrefs : FormulaOrder.declaredReferences (twoFormulas text).keyed =
      [(.string "a", (found.map Value.string).filter fun other =>
        ((twoFormulas text).keyed.find? other).isSome), (.string "b", [])] := by
    rw [← hfound]
    simp only [FormulaOrder.declaredReferences, twoFormulas, FormulaTexts.keyed, List.map_cons,
      List.map_nil, hone, List.filter_nil]
  rw [FormulaOrder.order, hsort, hrefs]
  rfl

/-- One formula that refers to the other. -/
def referring : Run :=
  ofTwo "formula.b" (.member (.name "formula") "b") ["b", "a"]

theorem formulas_agree_referring :
    PreparedQuery.ofSpec referring.query.spec true = .ok referring.query ∧
      ∃ row v, referring.computeFormulas referring.files referring.query.orderedFormulas
          onlyDocument.start = .ok row ∧
        (Expr.member (.name "formula") "b").eval (referring.scope referring.files row none) =
          .ok v ∧
        Entries.get? row.formula "a" = some v := by
  have hparse : Expr.parse "formula.b" = .ok (.member (.name "formula") "b") := by decide +kernel
  have hfound : FormulaOrder.references "formula.b" = ["b"] := by decide
  have horder : FormulaOrder.order (twoFormulas "formula.b").keyed =
      .ok (["b", "a"].map Value.string) := (order_twoFormulas hfound).trans rfl
  have hquery : PreparedQuery.ofSpec referring.query.spec true = .ok referring.query :=
    ofSpec_ofTwo hparse horder
  have hreads : (twoFormulas "formula.b").ReadsReferred := by
    intro f source e hsource he
    simp only [twoFormulas, List.mem_cons, List.not_mem_nil, or_false, Prod.mk.injEq] at hsource
    rcases hsource with ⟨rfl, rfl⟩ | ⟨rfl, rfl⟩
    · cases hparse.symm.trans he
      exact .formulaMember fun _ => .inl (hfound ▸ List.mem_singleton_self "b")
    · cases parse_one.symm.trans he
      exact .literal _ _
  have hdocs : ∀ doc ∈ referring.documents, doc.Settled := by
    refine List.forall_mem_singleton.mpr ⟨List.forall_mem_nil _, .file fun v hv => ?_⟩
    simp only [onlyDocument, FileRecord.parts, Entries.parts, List.map_nil, List.append_nil,
      List.not_mem_nil] at hv
  have hsource : ("a", "formula.b") ∈ (twoFormulas "formula.b").texts := List.mem_cons_self
  obtain ⟨row, hrow⟩ : ∃ row, referring.computeFormulas referring.files
      referring.query.orderedFormulas onlyDocument.start = .ok row := ⟨_, rfl⟩
  obtain ⟨e, v, -, -, he, -, -, hv, hget⟩ :=
    formulas_agree hquery rfl hreads hdocs List.mem_cons_self hrow hsource
  cases hparse.symm.trans he
  exact ⟨hquery, row, v, hrow, hv, hget⟩

/-- The first of two formulas has one value when it is computed and another one in the end. -/
def Changes (text : String) (e : Expr) (stored final : Value) : Prop :=
  Expr.parse text = .ok e ∧
    PreparedQuery.ofSpec (ofTwo text e ["a", "b"]).query.spec true =
      .ok (ofTwo text e ["a", "b"]).query ∧
    ∃ row, (ofTwo text e ["a", "b"]).computeFormulas (ofTwo text e ["a", "b"]).files
        (ofTwo text e ["a", "b"]).query.orderedFormulas onlyDocument.start = .ok row ∧
      Entries.get? row.formula "a" = some stored ∧
      e.eval ((ofTwo text e ["a", "b"]).scope (ofTwo text e ["a", "b"]).files row none) = .ok final

/-- A text refers to nothing by an index or by calling a method on all formulas, so the formula is
computed before what it reads. -/
theorem unreferred_changes :
    Changes "formula[\"b\"]" (.index (.name "formula") (.literal (.string "b") "\"b\""))
        .null (.number (.int 1)) ∧
      Changes "formula.isEmpty()" (.call (.member (.name "formula") "isEmpty") [])
        (.bool true) (.bool false) := by
  constructor
  · have hparse : Expr.parse "formula[\"b\"]" =
        .ok (.index (.name "formula") (.literal (.string "b") "\"b\"")) := by decide +kernel
    have hfound : FormulaOrder.references "formula[\"b\"]" = [] := by decide
    exact ⟨hparse, ofSpec_ofTwo hparse ((order_twoFormulas hfound).trans rfl), _, rfl, rfl, rfl⟩
  · have hparse : Expr.parse "formula.isEmpty()" =
        .ok (.call (.member (.name "formula") "isEmpty") []) := by decide +kernel
    have hfound : FormulaOrder.references "formula.isEmpty()" = ["isEmpty"] := by decide
    exact ⟨hparse, ofSpec_ofTwo hparse ((order_twoFormulas hfound).trans rfl), _, rfl, rfl, rfl⟩

end Run

end NoteQuery
