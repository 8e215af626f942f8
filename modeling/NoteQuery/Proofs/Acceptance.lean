/-
What becomes of a query document that is accepted.

Two checks stand before a run: the form of documents, and the structure that preparing asks for.
Whatever passes the first passes the second (`structured_of_ofDocument`), and preparing then fails
only where a formula refers to itself, a text is no expression, reading one breaks off, or the
names of formulas have no order (`QuerySpec.Unprepared`).

For the limit of a view the two do not ask the same as the run does.  A binary number without a
fraction has the form of an integer, and is no number of rows: a view with such a limit is accepted
and prepared, and has no result whatever the documents are (`result_wholeLimit`).
-/
import NoteQuery.Proofs.Breaks
import NoteQuery.Proofs.Obstructions
import NoteQuery.Query.Schema

namespace NoteQuery

/-- A number without a fraction that is not negative. -/
inductive Number.IsCount : Number → Prop
  | natural (n : Nat) : IsCount (.int n)
  | whole {x : Binary64} : x.isFinite = true → x.isInteger = true →
      (Number.float x).lt (.int 0) = false → IsCount (.float x)

theorem Number.IsCount.not_negative {n : Number} (h : n.IsCount) : n.lt (.int 0) = false := by
  cases h with
  | natural n =>
    refine beq_eq_false_iff_ne.mpr fun hlt => ?_
    have := Int.compare_eq_lt.mp (Option.some.inj hlt)
    omega
  | whole _ _ hlt => exact hlt

/-! ## Checks that find nothing -/

namespace Schema

variable {v : Value} {live : Bool} {entries : Entries}

theorem sort_eq_nil {sorts : String} {admits : Value → Bool} :
    sort sorts admits v = [] ↔ admits v = true := by
  unfold sort
  split
  · next h => exact iff_of_true rfl h
  · next h => exact iff_of_false (List.cons_ne_nil _ _) h

theorem text_eq_nil : text v = [] ↔ ∃ s, v = .string s := by
  rw [text, sort_eq_nil]
  cases v with
  | string s => exact iff_of_true rfl ⟨s, rfl⟩
  | _ => exact iff_of_false nofun nofun

theorem listOf_eq_nil {check : Check} :
    listOf check v = [] ↔ ∃ items, v = .list items ∧ ∀ item ∈ items, check item = [] := by
  unfold listOf
  rw [List.append_eq_nil_iff, sort_eq_nil]
  cases v with
  | list items =>
    have hitems : (∀ item ∈ items, check item = []) ↔ ∀ p ∈ items.zipIdx, check p.1 = [] := by
      conv_lhs => rw [← List.zipIdx_map_fst 0 items]
      exact List.forall_mem_map
    simp only [isList, List.flatMap_eq_nil_iff, List.map_eq_nil_iff, true_and, Value.list.injEq,
      exists_eq_left', hitems]
  | _ =>
    refine iff_of_false (fun h => Bool.false_ne_true h.1) ?_
    rintro ⟨items, h, -⟩
    cases h

theorem fields_eq_nil {checks : List (String × Check)} :
    fields checks (.mapping live entries) = [] ↔
      ∀ c ∈ checks, ∀ item, Entries.get? entries c.1 = some item → c.2 item = [] := by
  unfold fields
  dsimp only
  rw [List.flatMap_eq_nil_iff]
  refine forall_congr' fun c => forall_congr' fun _ => ?_
  split
  · next item hitem => simp only [List.map_eq_nil_iff, hitem, Option.some.injEq, forall_eq']
  · next hnone => simp only [hnone, reduceCtorEq, false_implies, implies_true]

theorem requires_eq_nil {name : String} :
    requires name (.mapping live entries) = [] ↔ ∃ item, Entries.get? entries name = some item := by
  rw [← Option.isSome_iff_exists]
  unfold requires Entries.has
  dsimp only
  split
  · next h => exact iff_of_true rfl h
  · next h => exact iff_of_false (List.cons_ne_nil _ _) h

theorem limit_eq_nil : limit v = [] ↔ ∃ n, v = .number n ∧ n.IsCount := by
  unfold limit
  rw [List.append_eq_nil_iff, sort_eq_nil]
  constructor
  · rintro ⟨hinteger, hbound⟩
    cases v with
    | number n =>
      refine ⟨n, rfl, ?_⟩
      dsimp only at hbound
      split at hbound
      · cases hbound
      · next hlt =>
        cases n with
        | int k =>
          obtain ⟨m, rfl⟩ : ∃ m : Nat, k = m := by
            refine Int.eq_ofNat_of_zero_le (Int.not_lt.mp fun hneg => hlt ?_)
            exact beq_iff_eq.mpr (congrArg some (Int.compare_eq_lt.mpr hneg))
          exact .natural m
        | float x =>
          obtain ⟨hfinite, hwhole⟩ := Bool.and_eq_true_iff.mp hinteger
          exact .whole hfinite hwhole (Bool.eq_false_iff.mpr hlt)
    | _ => cases hinteger
  · rintro ⟨n, rfl, hn⟩
    refine ⟨?_, if_neg (Bool.eq_false_iff.mp hn.not_negative)⟩
    cases hn with
    | natural n => rfl
    | whole hfinite hwhole _ => exact Bool.and_eq_true_iff.mpr ⟨hfinite, hwhole⟩

/-- A view of good form is a mapping with a name. -/
theorem exists_name_of_view (h : view v = []) : ∃ live entries name,
    v = .mapping live entries ∧ Entries.get? entries "name" = some (.string name) := by
  obtain ⟨h, hfields⟩ := List.append_eq_nil_iff.mp h
  obtain ⟨hsort, hname⟩ := List.append_eq_nil_iff.mp h
  cases v with
  | mapping live entries =>
    obtain ⟨item, hitem⟩ := requires_eq_nil.mp hname
    have hcheck : nonEmptyText item = [] :=
      fields_eq_nil.mp hfields ("name", nonEmptyText)
        (by simp only [List.mem_cons, true_or, or_true]) item hitem
    obtain ⟨name, rfl⟩ := text_eq_nil.mp (List.append_eq_nil_iff.mp hcheck).1
    exact ⟨live, entries, name, rfl, hitem⟩
  | _ => cases sort_eq_nil.mp hsort

theorem isCount_of_view {n : Number} (h : view v = []) (hn : (viewOf v).limit = some n) :
    n.IsCount := by
  obtain ⟨live, entries, -, rfl, -⟩ := exists_name_of_view h
  have hlimit := fields_eq_nil.mp (List.append_eq_nil_iff.mp h).2 ("limit", limit)
    (by simp only [List.mem_cons, true_or, or_true])
  simp only [viewOf] at hn
  split at hn
  · next m hm =>
    cases hn
    obtain ⟨_, hm, hcount⟩ := limit_eq_nil.mp (hlimit _ hm)
    cases hm
    exact hcount
  · cases hn

theorem name_viewOf {name : String} (h : Entries.get? entries "name" = some (.string name)) :
    (viewOf (.mapping live entries)).name = name := by
  simp only [viewOf, textUnder, h]

/-- Where no name repeats an earlier one, the names are distinct. -/
theorem distinct_of_repeatedNames {places : List (Value × Nat)} {seen : List String}
    (hviews : ∀ p ∈ places, view p.1 = []) (h : repeatedNames seen places = []) :
    (∀ p ∈ places, (viewOf p.1).name ∉ seen) ∧ (places.map fun p => (viewOf p.1).name).Nodup := by
  induction places generalizing seen with
  | nil => exact ⟨List.forall_mem_nil _, List.nodup_nil⟩
  | cons p places ih =>
    obtain ⟨v, n⟩ := p
    obtain ⟨hview, hrest⟩ := List.forall_mem_cons.mp hviews
    obtain ⟨live, entries, name, rfl, hname⟩ := exists_name_of_view hview
    simp only [repeatedNames, hname, List.contains_eq_mem, decide_eq_true_eq] at h
    split at h
    · cases h
    · next hnew =>
      obtain ⟨hunseen, hdistinct⟩ := ih hrest h
      rw [List.forall_mem_cons, List.map_cons, List.nodup_cons, name_viewOf hname]
      refine ⟨⟨hnew, fun q hq => List.not_mem_of_not_mem_cons (hunseen q hq)⟩, ?_, hdistinct⟩
      intro hmem
      obtain ⟨q, hq, hsame⟩ := List.mem_map.mp hmem
      exact hunseen q hq (hsame ▸ List.mem_cons_self)

theorem formIssues_eq_nil : formIssues v = .ok [] ↔ document v = [] := by
  unfold formIssues
  constructor
  · intro h
    dsimp only at h
    split at h
    · have hnil := List.map_eq_nil_iff.mp (Except.ok.inj h)
      have hlength := congrArg List.length hnil
      rw [Issue.inOrder, List.length_mergeSort] at hlength
      exact List.length_eq_zero_iff.mp hlength
    · cases h
  · intro h
    rw [h]
    show Except.ok ((Issue.inOrder []).map Issue.line) = _
    rw [Issue.inOrder, List.mergeSort_nil, List.map_nil]

/-! ## Documents without issues -/

/-- What an accepted document goes through. -/
theorem ofDocument_eq_ok {spec : QuerySpec} : QuerySpec.ofDocument v = .ok spec ↔
    ∃ live entries, v = .mapping live entries ∧ document v = [] ∧
      nameIssues entries = .ok [] ∧ queryOf entries = .ok spec := by
  constructor
  · intro h
    cases v with
    | mapping live entries =>
      obtain ⟨issues, hissues, h⟩ := bind_eq_ok.mp h
      obtain ⟨names, hnames, hquery⟩ := bind_eq_ok.mp h
      dsimp only at hquery
      split at hquery
      · next hempty =>
        obtain ⟨hnil, hnil'⟩ := List.append_eq_nil_iff.mp (List.isEmpty_iff.mp hempty)
        subst hnil hnil'
        exact ⟨live, entries, rfl, formIssues_eq_nil.mp (mapError_eq_ok.mp hissues),
          mapError_eq_ok.mp hnames, mapError_eq_ok.mp hquery⟩
      · cases hquery
    | _ => cases h
  · rintro ⟨live, entries, rfl, hdocument, hnames, hquery⟩
    refine bind_eq_ok.mpr ⟨[], mapError_eq_ok.mpr (formIssues_eq_nil.mpr hdocument), ?_⟩
    exact bind_eq_ok.mpr ⟨[], mapError_eq_ok.mpr hnames, mapError_eq_ok.mpr hquery⟩

end Schema

/-! ## Structure -/

namespace FilterSpec

mutual

/-- The texts of the expressions in a filter. -/
def sources : FilterSpec → List String
  | .expression source => [source]
  | .group all any without => partSources all ++ partSources any ++ without.sources
  | _ => []

def partSources : Option (List FilterSpec) → List String
  | none => []
  | some specs => listSources specs

def listSources : List FilterSpec → List String
  | [] => []
  | spec :: specs => spec.sources ++ listSources specs

end

mutual

/-- Whatever is in the filter is a filter. -/
def isSupported : FilterSpec → Bool
  | .group all any without => partIsSupported all && partIsSupported any && without.isSupported
  | .unsupported _ => false
  | _ => true

def partIsSupported : Option (List FilterSpec) → Bool
  | none => true
  | some specs => areSupported specs

def areSupported : List FilterSpec → Bool
  | [] => true
  | spec :: specs => spec.isSupported && areSupported specs

end

end FilterSpec

namespace Schema

mutual

theorem isSupported_filterOf (v : Value) : (filterOf v).isSupported = true := by
  cases v with
  | mapping live entries =>
    rw [filterOf, FilterSpec.isSupported, isSupported_partsOf "and" entries,
      isSupported_partsOf "or" entries, isSupported_withoutOf entries]
    rfl
  | _ => rfl

theorem isSupported_partsOf (key : String) (entries : Entries) :
    FilterSpec.partIsSupported (partsOf key entries) = true := by
  unfold partsOf
  split
  · rfl
  · next k items rest =>
    split
    · exact isSupported_filtersOf items
    · exact isSupported_partsOf key rest
  · next rest _ => exact isSupported_partsOf key rest

theorem isSupported_withoutOf (entries : Entries) : (withoutOf entries).isSupported = true := by
  unfold withoutOf
  split
  · rfl
  · next v _ => exact isSupported_filterOf v
  · next rest _ => exact isSupported_withoutOf rest

theorem isSupported_filtersOf (items : List Value) :
    FilterSpec.areSupported (filtersOf items) = true := by
  cases items with
  | nil => rfl
  | cons v vs =>
    rw [filtersOf, FilterSpec.areSupported, isSupported_filterOf v, isSupported_filtersOf vs]
    rfl

end

end Schema

/-- A query with a structure that can be prepared: it has views, each with a name of its own and no
limit but a number of rows or what looks like one, and filters that are filters. -/
structure QuerySpec.Structured (spec : QuerySpec) : Prop where
  views : spec.views ≠ []
  names : (spec.views.map View.name).Nodup
  limits : ∀ view ∈ spec.views, ∀ n, view.limit = some n → n.IsCount
  filters : spec.filters.isSupported = true
  viewFilters : ∀ view ∈ spec.views, view.filters.isSupported = true

theorem Schema.isSupported_map_filterOf (v : Option Value) :
    ((v.map filterOf).getD .always).isSupported = true := by
  cases v with
  | none => rfl
  | some v => exact isSupported_filterOf v

open Schema in
/-- What has the form of a query has its structure. -/
theorem QuerySpec.structured_of_ofDocument {v : Value} {spec : QuerySpec}
    (h : QuerySpec.ofDocument v = .ok spec) : spec.Structured := by
  obtain ⟨live, entries, rfl, hdocument, hnames, hquery⟩ := ofDocument_eq_ok.mp h
  obtain ⟨hrequired, hfields⟩ := List.append_eq_nil_iff.mp hdocument
  obtain ⟨item, hitem⟩ := requires_eq_nil.mp hrequired
  have hviews : Schema.views item = [] :=
    fields_eq_nil.mp hfields ("views", Schema.views)
      (by simp only [List.mem_cons, true_or, or_true]) item hitem
  obtain ⟨formulas, -, hspec⟩ := bind_eq_ok.mp hquery
  obtain ⟨hsort, hlist⟩ := List.append_eq_nil_iff.mp hviews
  obtain ⟨hsort, hsome⟩ := List.append_eq_nil_iff.mp hsort
  cases item with
  | list items =>
    obtain ⟨_, hitems, hlist⟩ := listOf_eq_nil.mp hlist
    cases hitems
    simp only [hitem] at hspec
    cases hspec
    have hrepeated : repeatedNames [] items.zipIdx = [] := by
      rw [nameIssues, hitem] at hnames
      exact Except.ok.inj hnames
    have hplaces : ∀ p ∈ items.zipIdx, Schema.view p.1 = [] := by
      rw [← List.forall_mem_map (f := Prod.fst) (P := fun v => Schema.view v = []),
        List.zipIdx_map_fst]
      exact hlist
    refine ⟨?_, ?_, ?_, isSupported_map_filterOf _, ?_⟩
    · intro hempty
      rw [List.map_eq_nil_iff.mp hempty] at hsome
      cases hsome
    · have hdistinct := (distinct_of_repeatedNames hplaces hrepeated).2
      rwa [← List.zipIdx_map_fst 0 items, List.map_map, List.map_map]
    · exact List.forall_mem_map.mpr fun v hv n hn => isCount_of_view (hlist v hv) hn
    · refine List.forall_mem_map.mpr fun v hv => ?_
      obtain ⟨live, entries, -, rfl, -⟩ := exists_name_of_view (hlist v hv)
      exact isSupported_map_filterOf _
  | _ => cases sort_eq_nil.mp hsort

/-! ## Preparing -/

/-- The failure is that of reading one of the texts. -/
def Unread (sources : List String) (failure : QueryFailure) : Prop :=
  ∃ source ∈ sources, ∃ r, Expr.parse source = .error r ∧ failure = .ofReading r

theorem Unread.mono {sources others : List String} {failure : QueryFailure}
    (h : Unread sources failure) (hsub : ∀ source ∈ sources, source ∈ others) :
    Unread others failure := by
  obtain ⟨source, hsource, hr⟩ := h
  exact ⟨source, hsub source hsource, hr⟩

theorem failsOnly_parse {source : String} {sources : List String} (h : source ∈ sources) :
    FailsOnly (Unread sources) ((Expr.parse source).mapError QueryFailure.ofReading) := by
  refine failsOnly_mapError ?_
  intro r hr
  exact ⟨source, h, r, hr, rfl⟩

namespace Filter

open FilterSpec

mutual

/-- Preparing a filter fails only where a text in it cannot be read. -/
theorem failsOnly_ofSpec {spec : FilterSpec} (h : spec.isSupported = true) :
    FailsOnly (Unread spec.sources) (ofSpec spec) := by
  cases spec with
  | always => exact failsOnly_ok _
  | expression source =>
    exact failsOnly_bind (failsOnly_parse List.mem_cons_self) fun _ => failsOnly_ok _
  | group all any without =>
    rw [isSupported, Bool.and_eq_true_iff, Bool.and_eq_true_iff] at h
    obtain ⟨⟨hall, hany⟩, hwithout⟩ := h
    rw [ofSpec, sources]
    refine failsOnly_bind ((failsOnly_ofOptional hall).mono fun _ hf => hf.mono ?_) fun _ => ?_
    · intro source hsource
      exact List.mem_append_left _ (List.mem_append_left _ hsource)
    refine failsOnly_bind ((failsOnly_ofOptional hany).mono fun _ hf => hf.mono ?_) fun _ => ?_
    · intro source hsource
      exact List.mem_append_left _ (List.mem_append_right _ hsource)
    refine failsOnly_bind ((failsOnly_ofSpec hwithout).mono fun _ hf => hf.mono ?_) fun _ => ?_
    · intro source hsource
      exact List.mem_append_right _ hsource
    · exact failsOnly_ok _
  | unsupported v => cases h

theorem failsOnly_ofOptional {specs : Option (List FilterSpec)}
    (h : partIsSupported specs = true) :
    FailsOnly (Unread (partSources specs)) (ofOptional specs) := by
  cases specs with
  | none => exact failsOnly_ok _
  | some specs => exact failsOnly_bind (failsOnly_ofSpecs h) fun _ => failsOnly_ok _

theorem failsOnly_ofSpecs {specs : List FilterSpec} (h : areSupported specs = true) :
    FailsOnly (Unread (listSources specs)) (ofSpecs specs) := by
  cases specs with
  | nil => exact failsOnly_ok _
  | cons spec specs =>
    obtain ⟨hspec, hspecs⟩ := Bool.and_eq_true_iff.mp h
    rw [ofSpecs, listSources]
    refine failsOnly_bind ((failsOnly_ofSpec hspec).mono fun _ hf => hf.mono ?_) fun _ => ?_
    · intro source hsource
      exact List.mem_append_left _ hsource
    refine failsOnly_bind ((failsOnly_ofSpecs hspecs).mono fun _ hf => hf.mono ?_) fun _ => ?_
    · intro source hsource
      exact List.mem_append_right _ hsource
    · exact failsOnly_ok _

end

end Filter

namespace FormulaOrder

theorem failsOnly_visit (refs : References) (fuel : Nat) (path : List Value) (name : Value)
    (done : List Value) :
    FailsOnly (fun e => ∃ circular, e = .formulaCycle circular)
      (visit refs fuel path name done) := by
  induction fuel generalizing path name done with
  | zero => exact failsOnly_error ⟨_, rfl⟩
  | succ fuel ih =>
    rw [visit]
    split
    · exact failsOnly_ok _
    · split
      · exact failsOnly_error ⟨_, rfl⟩
      · refine failsOnly_bind (failsOnly_foldlM ?_) fun _ => failsOnly_ok _
        intro done other _
        exact ih (name :: path) other done

theorem nameBefore_eq_error {v w : Value} {f : Fault} (h : nameBefore v w = .error f) :
    f = .wrongKind := by
  unfold nameBefore at h
  split at h
  · cases h
  · cases h
  · split at h
    · cases h
    · cases h
      rfl
  · cases h
  · split at h
    · cases h
    · cases h
      rfl

end FormulaOrder

namespace PreparedQuery

theorem checkViews_eq_ok {views : List View} {seen : List String}
    (hunseen : ∀ view ∈ views, view.name ∉ seen) (hdistinct : (views.map View.name).Nodup)
    (hlimits : ∀ view ∈ views, ∀ n, view.limit = some n → n.IsCount) :
    checkViews seen views = .ok () := by
  induction views generalizing seen with
  | nil => rfl
  | cons view views ih =>
    obtain ⟨hnew, hunseen⟩ := List.forall_mem_cons.mp hunseen
    obtain ⟨hlimit, hlimits⟩ := List.forall_mem_cons.mp hlimits
    obtain ⟨hother, hdistinct⟩ := List.nodup_cons.mp hdistinct
    have hpositive : (view.limit.map (·.lt (.int 0))).getD false = false := by
      cases h : view.limit with
      | none => rfl
      | some n => exact (hlimit n h).not_negative
    rw [checkViews, List.contains_eq_mem, decide_eq_false hnew, hpositive]
    refine ih ?_ hdistinct hlimits
    intro later hlater hmem
    rcases List.mem_cons.mp hmem with hsame | hmem
    · exact hother (List.mem_map.mpr ⟨later, hlater, hsame⟩)
    · exact hunseen later hlater hmem

theorem checkStructure_eq_ok {spec : QuerySpec} (h : spec.Structured) :
    checkStructure spec = .ok () := by
  rw [checkStructure, if_neg (List.isEmpty_iff.not.mpr h.views)]
  exact checkViews_eq_ok (fun _ _ => List.not_mem_nil) h.names h.limits

theorem failsOnly_readNamed (sources : Keyed String) :
    FailsOnly (Unread (sources.map Prod.snd)) (readNamed sources) := by
  refine failsOnly_mapM ?_
  intro named hnamed
  exact failsOnly_bind (failsOnly_parse (List.mem_map_of_mem hnamed)) fun _ => failsOnly_ok _

end PreparedQuery

namespace QuerySpec

/-- The texts of the expressions in a query. -/
def sources (spec : QuerySpec) : List String :=
  spec.formulas.map Prod.snd ++ spec.views.flatMap (·.filters.sources) ++
    spec.summaries.map Prod.snd ++ spec.filters.sources

/-- Why a query of good structure cannot be prepared. -/
inductive Unprepared (spec : QuerySpec) : QueryFailure → Prop
  | circle (name : String) : Unprepared spec (.query (.formulaCycle name))
  | noExpression {source : String} {e : SyntaxError} : source ∈ spec.sources →
      Expr.parse source = .error (.syntaxError e) → Unprepared spec (.syntaxError e)
  | breaks {source : String} {tokens : List Token} {t : Token} {f : Fault} :
      source ∈ spec.sources → tokenize source = .ok tokens → t ∈ tokens → t.Breaks f →
        Unprepared spec (.fault f)
  | unordered {a b : Value} : a ∈ spec.formulas.keys → b ∈ spec.formulas.keys →
      FormulaOrder.nameBefore a b = .error .wrongKind → Unprepared spec (.fault .wrongKind)

variable {spec : QuerySpec}

theorem unprepared_of_unread {sources : List String}
    (hsub : ∀ source ∈ sources, source ∈ spec.sources) (failure : QueryFailure)
    (h : Unread sources failure) : spec.Unprepared failure := by
  obtain ⟨source, hsource, r, hr, rfl⟩ := h
  cases r with
  | syntaxError e => exact .noExpression (hsub source hsource) hr
  | fault f =>
    obtain ⟨tokens, htokens, t, ht, hbreaks⟩ := Expr.exists_breaks_of_parse hr
    exact .breaks (hsub source hsource) htokens ht hbreaks

theorem failsOnly_order : FailsOnly spec.Unprepared (FormulaOrder.order spec.formulas) := by
  refine failsOnly_bind (failsOnly_mapError (Sorting.failsOnly_sort ?_)) fun names => ?_
  · intro a ha b hb f hf
    obtain rfl := FormulaOrder.nameBefore_eq_error hf
    exact .unordered ha hb hf
  · refine failsOnly_mapError (failsOnly_foldlM fun done name _ => ?_)
    refine (FormulaOrder.failsOnly_visit _ _ _ name done).mono ?_
    rintro _ ⟨circular, rfl⟩
    exact .circle circular

theorem failsOnly_ofSpec (h : spec.Structured) (strict : Bool) :
    FailsOnly spec.Unprepared (PreparedQuery.ofSpec spec strict) := by
  have hread {sources : List String} {α : Type} {x : Except QueryFailure α}
      (hx : FailsOnly (Unread sources) x) (hsub : ∀ source ∈ sources, source ∈ spec.sources) :
      FailsOnly spec.Unprepared x :=
    hx.mono (unprepared_of_unread hsub)
  refine failsOnly_bind_of_ok ?_ ?_
  · refine failsOnly_bind ?_ fun _ => ?_
    · rw [PreparedQuery.checkStructure_eq_ok h]
      exact failsOnly_ok _
    refine failsOnly_bind failsOnly_order fun _ => ?_
    refine failsOnly_bind (hread (PreparedQuery.failsOnly_readNamed spec.formulas) ?_) fun _ => ?_
    · intro source hsource
      exact List.mem_append_left _ (List.mem_append_left _ (List.mem_append_left _ hsource))
    refine failsOnly_bind (failsOnly_mapM fun view hview => ?_) fun _ => ?_
    · refine failsOnly_bind (hread (Filter.failsOnly_ofSpec (h.viewFilters view hview)) ?_)
        fun _ => failsOnly_ok _
      intro source hsource
      refine List.mem_append_left _ (List.mem_append_left _ (List.mem_append_right _ ?_))
      exact List.mem_flatMap.mpr ⟨view, hview, hsource⟩
    refine failsOnly_bind (hread (PreparedQuery.failsOnly_readNamed spec.summaries) ?_)
      fun _ => failsOnly_ok _
    intro source hsource
    exact List.mem_append_left _ (List.mem_append_right _ hsource)
  · intro q hq
    obtain ⟨rfl, -⟩ := PreparedQuery.formulas_of_withoutGlobalFilter hq
    refine failsOnly_bind (hread (Filter.failsOnly_ofSpec h.filters) ?_) fun _ => failsOnly_ok _
    intro source hsource
    exact List.mem_append_right _ hsource

end QuerySpec

/-! ## Running -/

namespace Run

/-- Why a run of an accepted view has no result: it is obstructed, or its limit is a binary number,
which only looks like an integer. -/
inductive Halted (r : Run) (view : View) : Fault → Prop
  | obstructed {f : Fault} : r.Obstructed view f → Halted r view f
  | limit {x : Binary64} : view.limit = some (.float x) → x.isInteger = true →
      Halted r view .wrongKind

/-- Without a name there is a view to run. -/
theorem exists_viewOf_none {q : PreparedQuery} (h : q.spec.Structured) :
    ∃ view, viewOf q none = .ok view := by
  obtain ⟨view, views, hviews⟩ := List.exists_cons_of_ne_nil h.views
  refine ⟨view, ?_⟩
  simp only [viewOf, hviews]

theorem find?_name {views : List View} (h : (views.map View.name).Nodup) {view : View}
    (hview : view ∈ views) : views.find? (·.name == view.name) = some view := by
  induction views with
  | nil => cases hview
  | cons first views ih =>
    obtain ⟨hnew, hrest⟩ := List.nodup_cons.mp h
    rw [List.find?_cons]
    rcases List.mem_cons.mp hview with rfl | hview
    · simp only [BEq.rfl]
    · have hother : (first.name == view.name) = false := by
        refine beq_eq_false_iff_ne.mpr ?_
        intro hsame
        exact hnew (hsame ▸ List.mem_map_of_mem hview)
      simp only [hother]
      exact ih hrest hview

/-- Each view is found by its name. -/
theorem viewOf_name {q : PreparedQuery} (h : q.spec.Structured) {view : View}
    (hview : view ∈ q.spec.views) : viewOf q (some view.name) = .ok view := by
  simp only [viewOf, find?_name h.names hview]

theorem mem_of_viewOf {q : PreparedQuery} {name : Option String} {view : View}
    (h : viewOf q name = .ok view) : view ∈ q.spec.views := by
  unfold viewOf at h
  split at h
  · next hviews =>
    cases h
    rw [hviews]
    exact List.mem_cons_self
  · cases h
  · split at h
    · next hfind =>
      cases h
      exact List.mem_of_find?_eq_some hfind
    · cases h

/-- A limit that is a binary number is none. -/
theorem result_ne_ok_of_float {r : Run} {name : Option String} {view : View} {x : Binary64}
    {res : Result} (hview : viewOf r.query name = .ok view)
    (hlimit : view.limit = some (.float x)) : r.result name ≠ .ok res := by
  intro hresult
  obtain ⟨found, hfound, stages, -⟩ := result_eq_ok.mp hresult
  obtain rfl := Except.ok.inj (hfound.symm.trans hview)
  have hlimited := stages.limited_eq
  rw [hlimit] at hlimited
  cases hlimited

end Run

/-- An accepted document is prepared, or there is a reason why its query cannot be.  A prepared one
has a view to begin with and finds every view by its name, and once every document has given its
row or its error, a run of a view has a result or there is a reason why it has none.  It has none
at all if the limit of the view is a binary number. -/
theorem QuerySpec.accepted_runs {v : Value} {spec : QuerySpec}
    (h : QuerySpec.ofDocument v = .ok spec) (strict : Bool) :
    (∃ failure, PreparedQuery.ofSpec spec strict = .error failure ∧ spec.Unprepared failure) ∨
    ∃ q, PreparedQuery.ofSpec spec strict = .ok q ∧ (∃ view, Run.viewOf q none = .ok view) ∧
      (∀ view ∈ spec.views, Run.viewOf q (some view.name) = .ok view) ∧
      ∀ (r : Run) (name : Option String) (view : View), r.query = q →
        Run.viewOf q name = .ok view →
        ((∀ doc ∈ r.documents, ∀ f,
            r.rowOf r.files (q.filtersOf view.name) doc ≠ .error (.fault f)) →
          (∃ x : Run.Stages r view, r.result name = .ok x.result ∧ x.Warns) ∨
            ∃ f, r.result name = .error (.fault f) ∧ r.Halted view f) ∧
        ∀ x, view.limit = some (.float x) → ∀ res, r.result name ≠ .ok res := by
  have hstructured := structured_of_ofDocument h
  cases hq : PreparedQuery.ofSpec spec strict with
  | error failure => exact .inl ⟨failure, rfl, failsOnly_ofSpec hstructured strict failure hq⟩
  | ok q =>
    obtain ⟨rfl, -⟩ := PreparedQuery.formulas_of_ofSpec hq
    refine .inr ⟨q, rfl, Run.exists_viewOf_none hstructured,
      fun view hview => Run.viewOf_name hstructured hview, ?_⟩
    rintro r name view rfl hview
    refine ⟨?_, fun x hlimit res => Run.result_ne_ok_of_float hview hlimit⟩
    intro hdocuments
    cases hresult : r.result name with
    | ok res =>
      obtain ⟨found, hfound, x, rfl⟩ := Run.result_eq_ok.mp hresult
      obtain rfl := Except.ok.inj (hfound.symm.trans hview)
      exact .inl ⟨x, rfl, x.warns⟩
    | error failure =>
      obtain ⟨names, hnames⟩ := Run.exists_sort_names hq
      have hlimit (x : Binary64) (hx : view.limit = some (.float x)) :
          r.Halted view .wrongKind := by
        cases hstructured.limits view (Run.mem_of_viewOf hview) _ hx with
        | whole _ hwhole _ => exact .limit hx hwhole
      obtain ⟨f, rfl, hhalted⟩ :=
        Run.failsOnly_result hnames hview hdocuments hlimit (fun _ => .obstructed) failure hresult
      exact .inr ⟨f, rfl, hhalted⟩

/-! ### Two documents -/

/-- A document with one view. -/
def documentOf (view : Entries) : Value :=
  .object [(.string "views", .list [.object view])]

namespace Run

theorem accepted_runs_emptyColumn :
    QuerySpec.ofDocument (documentOf [(.string "name", .string "all"),
        (.string "order", .list [.string "1 - missing"])]) = .ok { views := [emptyColumn] } ∧
      ∃ x : Stages (single emptyColumn []) emptyColumn,
        (single emptyColumn []).result none = .ok x.result ∧ x.Warns := by
  have haccepted : QuerySpec.ofDocument (documentOf [(.string "name", .string "all"),
      (.string "order", .list [.string "1 - missing"])]) = .ok { views := [emptyColumn] } :=
    Schema.ofDocument_eq_ok.mpr ⟨_, _, rfl, rfl, rfl, rfl⟩
  have hquery : PreparedQuery.ofSpec { views := [emptyColumn] } true =
      .ok (single emptyColumn []).query := rfl
  have hresult : (single emptyColumn []).result none = .ok emptyColumnStages.result :=
    result_eq_ok.mpr ⟨emptyColumn, rfl, emptyColumnStages, rfl⟩
  refine ⟨haccepted, ?_⟩
  rcases QuerySpec.accepted_runs haccepted true with ⟨failure, hfailure, -⟩ | ⟨q, hq, -, -, hruns⟩
  · cases hquery.symm.trans hfailure
  · obtain rfl := Except.ok.inj (hquery.symm.trans hq)
    have hdocuments : ∀ doc ∈ (single emptyColumn []).documents, ∀ f,
        (single emptyColumn []).rowOf (single emptyColumn []).files
          ((single emptyColumn []).query.filtersOf emptyColumn.name) doc ≠ .error (.fault f) :=
      List.forall_mem_singleton.mpr nofun
    obtain ⟨houtcome, -⟩ := hruns (single emptyColumn []) none emptyColumn rfl rfl
    rcases houtcome hdocuments with hstages | ⟨f, herror, -⟩
    · exact hstages
    · cases hresult.symm.trans herror

/-- A view that is limited to two rows, as a binary number. -/
def wholeLimit : View :=
  { name := "a", limit := some (.float (.ofInt 2)) }

/-- The document is accepted, its query is prepared and the note gives its row, but there is no
result. -/
theorem result_wholeLimit :
    let r := single wholeLimit []
    QuerySpec.ofDocument (documentOf [(.string "name", .string "a"),
        (.string "limit", .float (.ofInt 2))]) = .ok { views := [wholeLimit] } ∧
      PreparedQuery.ofSpec { views := [wholeLimit] } true = .ok r.query ∧
      viewOf r.query none = .ok wholeLimit ∧
      (∀ doc ∈ r.documents, ∃ row,
        r.rowOf r.files (r.query.filtersOf wholeLimit.name) doc = .ok (some row)) ∧
      r.result none = .error (.fault .wrongKind) :=
  ⟨Schema.ofDocument_eq_ok.mpr ⟨_, _, rfl, rfl, rfl, rfl⟩, rfl, rfl,
    List.forall_mem_singleton.mpr ⟨_, rfl⟩, rfl⟩

end Run

end NoteQuery
