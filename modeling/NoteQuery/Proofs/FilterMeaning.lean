/-
What filters mean.

A filter as it is written says something of a row once each of its texts does (`FilterSpec.holds`):
the parts of a group must all hold, all of some, one of some unless there is none, and not another.
Preparing leaves out whatever restricts nothing.  That is no loss where all of some must pass, but
one of some is then one of what is left, and nothing is left of the exclusion of what is always
true.  So a prepared filter passes exactly when what is left of the written one holds
(`FilterSpec.pruned`, `Filter.passes_iff_pruned_holds`), and this is what is written unless a choice
or an exclusion is of something that restricts nothing.  Filters in documents always restrict
something, so these mean what they say (`Filter.passes_filterOf`).

The induction is along preparing, with the lists of parts beside the filters.
-/
import NoteQuery.Proofs.Outcomes
import NoteQuery.Query.Filter
import NoteQuery.Query.Schema

namespace NoteQuery

namespace FilterSpec

/-! ## Meaning -/

/-- There is no filter. -/
def isAlways : FilterSpec → Bool
  | .always => true
  | _ => false

mutual

/-- What the filter says where each text is true or false. -/
def holds (truth : String → Bool) : FilterSpec → Bool
  | .always => true
  | .expression source => truth source
  | .group all any without =>
    allHold truth all && anyHolds truth any && (without.isAlways || !without.holds truth)
  | .unsupported _ => false

/-- All of a part hold, if the part is there. -/
def allHold (truth : String → Bool) : Option (List FilterSpec) → Bool
  | none => true
  | some specs => everyHolds truth specs

/-- One of a part holds, if the part is there and not empty. -/
def anyHolds (truth : String → Bool) : Option (List FilterSpec) → Bool
  | none => true
  | some specs => specs.isEmpty || someHolds truth specs

def everyHolds (truth : String → Bool) : List FilterSpec → Bool
  | [] => true
  | spec :: specs => spec.holds truth && everyHolds truth specs

def someHolds (truth : String → Bool) : List FilterSpec → Bool
  | [] => false
  | spec :: specs => spec.holds truth || someHolds truth specs

end

/-! ## What restricts nothing -/

/-- A group, or no filter if it has no part. -/
def ofParts : Option (List FilterSpec) → Option (List FilterSpec) → FilterSpec → FilterSpec
  | none, none, .always => .always
  | all, any, without => .group all any without

mutual

/-- What is left of the filter without parts that restrict nothing. -/
def pruned : FilterSpec → FilterSpec
  | .group all any without => ofParts (prunedPart all) (prunedPart any) without.pruned
  | spec => spec

def prunedPart : Option (List FilterSpec) → Option (List FilterSpec)
  | none => none
  | some specs => some (prunedList specs)

def prunedList : List FilterSpec → List FilterSpec
  | [] => []
  | spec :: specs =>
    if spec.pruned.isAlways then prunedList specs else spec.pruned :: prunedList specs

end

/-- Something is left of the filter. -/
def restricts (spec : FilterSpec) : Bool :=
  !spec.pruned.isAlways

/-- One of several to choose from restricts nothing only where there is no choice. -/
def choiceRestricts (any : Option (List FilterSpec)) : Bool :=
  (any.getD []).all restricts

mutual

/-- Nothing that restricts nothing is excluded or one of several to choose from. -/
def isSharp : FilterSpec → Bool
  | .group all any without =>
    partIsSharp all && partIsSharp any && choiceRestricts any &&
      (without.isAlways || without.restricts && without.isSharp)
  | _ => true

def partIsSharp : Option (List FilterSpec) → Bool
  | none => true
  | some specs => areSharp specs

def areSharp : List FilterSpec → Bool
  | [] => true
  | spec :: specs => spec.isSharp && areSharp specs

end

theorem isAlways_iff {spec : FilterSpec} : spec.isAlways = true ↔ spec = .always := by
  cases spec <;> simp only [isAlways, reduceCtorEq, Bool.false_eq_true]

theorem holds_of_isAlways {spec : FilterSpec} (h : spec.isAlways = true)
    (truth : String → Bool) : spec.holds truth = true := by
  rw [isAlways_iff.mp h, holds]

theorem holds_ofParts (truth : String → Bool) (all any : Option (List FilterSpec))
    (without : FilterSpec) :
    (ofParts all any without).holds truth =
      (allHold truth all && anyHolds truth any && (without.isAlways || !without.holds truth)) := by
  unfold ofParts
  split
  · rfl
  · rw [holds]

theorem isAlways_ofParts (all any : Option (List FilterSpec)) (without : FilterSpec) :
    (ofParts all any without).isAlways = (!all.isSome && !any.isSome && without.isAlways) := by
  cases all with
  | some specs => rfl
  | none =>
    cases any with
    | some specs => rfl
    | none => cases without <;> rfl

theorem isSome_prunedPart (part : Option (List FilterSpec)) :
    (prunedPart part).isSome = part.isSome := by
  cases part with
  | none => rfl
  | some specs => rfl

/-! ## Pruning where nothing is lost -/

section Sharp

variable (truth : String → Bool)

/-- In a list all of which must hold nothing is lost. -/
theorem everyHolds_prunedList_cons (spec : FilterSpec) (specs : List FilterSpec) :
    everyHolds truth (prunedList (spec :: specs)) =
      (spec.pruned.holds truth && everyHolds truth (prunedList specs)) := by
  rw [prunedList]
  split
  · next h => rw [holds_of_isAlways h, Bool.true_and]
  · rw [everyHolds]

/-- Where every one restricts something, nothing is taken out of a choice. -/
theorem prunedList_of_restricts {specs : List FilterSpec} (h : specs.all restricts = true) :
    prunedList specs = specs.map pruned := by
  induction specs with
  | nil => rfl
  | cons spec specs ih =>
    obtain ⟨hspec, hspecs⟩ := Bool.and_eq_true_iff.mp (List.all_cons.symm.trans h)
    rw [prunedList, if_neg (by simpa [restricts] using hspec), ih hspecs, List.map_cons]

mutual

theorem holds_pruned {spec : FilterSpec} (h : spec.isSharp = true) :
    spec.pruned.holds truth = spec.holds truth := by
  match spec, h with
  | .always, _ => rfl
  | .expression _, _ => rfl
  | .unsupported _, _ => rfl
  | .group all any without, h =>
    simp only [isSharp, Bool.and_eq_true] at h
    obtain ⟨⟨⟨hall, hany⟩, hchoice⟩, hwithout⟩ := h
    rw [pruned, holds_ofParts, holds, allHold_prunedPart hall, anyHolds_prunedPart hany hchoice]
    congr 1
    rcases Bool.or_eq_true_iff.mp hwithout with h | h
    · rw [isAlways_iff.mp h]
      rfl
    · obtain ⟨hrestricts, hsharp⟩ := Bool.and_eq_true_iff.mp h
      have hleft : without.pruned.isAlways = false := by simpa [restricts] using hrestricts
      have hwritten : without.isAlways = false := by
        cases without <;> first | rfl | cases hleft
      rw [hleft, hwritten, holds_pruned hsharp]

theorem allHold_prunedPart {part : Option (List FilterSpec)} (h : partIsSharp part = true) :
    allHold truth (prunedPart part) = allHold truth part := by
  match part, h with
  | none, _ => rfl
  | some specs, h => rw [prunedPart, allHold, allHold, everyHolds_prunedList h]

theorem everyHolds_prunedList {specs : List FilterSpec} (h : areSharp specs = true) :
    everyHolds truth (prunedList specs) = everyHolds truth specs := by
  match specs, h with
  | [], _ => rfl
  | spec :: specs, h =>
    obtain ⟨hspec, hspecs⟩ := Bool.and_eq_true_iff.mp h
    rw [everyHolds_prunedList_cons, everyHolds, holds_pruned hspec, everyHolds_prunedList hspecs]

theorem anyHolds_prunedPart {part : Option (List FilterSpec)} (h : partIsSharp part = true)
    (hchoice : choiceRestricts part = true) :
    anyHolds truth (prunedPart part) = anyHolds truth part := by
  match part, h with
  | none, _ => rfl
  | some specs, h =>
    have hlist : prunedList specs = specs.map pruned := prunedList_of_restricts hchoice
    rw [prunedPart, anyHolds, anyHolds, hlist, List.isEmpty_map, someHolds_map_pruned h]

theorem someHolds_map_pruned {specs : List FilterSpec} (h : areSharp specs = true) :
    someHolds truth (specs.map pruned) = someHolds truth specs := by
  match specs, h with
  | [], _ => rfl
  | spec :: specs, h =>
    obtain ⟨hspec, hspecs⟩ := Bool.and_eq_true_iff.mp h
    rw [List.map_cons, someHolds, someHolds, holds_pruned hspec, someHolds_map_pruned hspecs]

end

end Sharp

end FilterSpec

/-! ## Passing -/

/-- The text is an expression that is true in the scope. -/
def Scope.affirms (s : Scope) (source : String) : Bool :=
  match Expr.parse source with
  | .ok e => (e.holds s).toOption.getD false
  | .error _ => false

namespace FilterSpec

variable {s : Scope}

mutual

/-- Every text in the filter is an expression that has a value in the scope. -/
def Evaluates (s : Scope) : FilterSpec → Prop
  | .always => True
  | .expression source => ∃ e v, Expr.parse source = .ok e ∧ e.eval s = .ok v
  | .group all any without => PartEvaluates s all ∧ PartEvaluates s any ∧ without.Evaluates s
  | .unsupported _ => False

def PartEvaluates (s : Scope) : Option (List FilterSpec) → Prop
  | none => True
  | some specs => EachEvaluates s specs

def EachEvaluates (s : Scope) : List FilterSpec → Prop
  | [] => True
  | spec :: specs => spec.Evaluates s ∧ EachEvaluates s specs

end

end FilterSpec

namespace Filter

open FilterSpec

variable {s : Scope}

theorem allPass_append {front back : List Filter} {a b : Bool} (hfront : allPass front s = .ok a)
    (hback : allPass back s = .ok b) : allPass (front ++ back) s = .ok (a && b) := by
  induction front with
  | nil =>
    cases hfront
    exact hback
  | cons filter front ih =>
    obtain ⟨passes, hpasses, hrest⟩ := bind_eq_ok.mp hfront
    rw [List.cons_append, allPass, hpasses]
    cases passes with
    | true => exact ih hrest
    | false =>
      cases hrest
      rfl

theorem allPass_singleton (filter : Filter) : allPass [filter] s = filter.passes s := by
  rw [allPass]
  cases filter.passes s with
  | error e => rfl
  | ok passes => cases passes <;> rfl

/-- Parts that are put together pass when each of them does. -/
theorem allPass_join? (parts : List Filter) :
    allPass (join? parts).toList s = allPass parts s := by
  match parts with
  | [] => rfl
  | [part] => rfl
  | first :: second :: rest => exact allPass_singleton (allOf (first :: second :: rest))

theorem isNone_join? (parts : List Filter) : (join? parts).isNone = parts.isEmpty := by
  match parts with
  | [] => rfl
  | [part] => rfl
  | first :: second :: rest => rfl

/-! ## Preparing -/

/-- The prepared filter does what is left of the written one says. -/
structure Renders (s : Scope) (spec : FilterSpec) (filter : Option Filter) : Prop where
  passes : allPass filter.toList s = .ok (spec.pruned.holds s.affirms)
  absent : filter.isNone = spec.pruned.isAlways

/-- The prepared filters do what is left of the written ones says, all together and one of them. -/
structure RendersList (s : Scope) (specs : List FilterSpec) (filters : List Filter) : Prop where
  all : allPass filters s = .ok (everyHolds s.affirms (prunedList specs))
  any : anyPasses filters s = .ok (someHolds s.affirms (prunedList specs))
  empty : filters.isEmpty = (prunedList specs).isEmpty

/-- The prepared part does what is left of the written one says, whichever part it is. -/
structure RendersPart (s : Scope) (part : Option (List FilterSpec))
    (filters : Option (List Filter)) : Prop where
  all : allPass (filters.map allOf).toList s = .ok (allHold s.affirms (prunedPart part))
  any : allPass (filters.map anyOf).toList s = .ok (anyHolds s.affirms (prunedPart part))
  present : filters.isSome = part.isSome

theorem rendersList_cons {spec : FilterSpec} {specs : List FilterSpec} {filter : Option Filter}
    {filters : List Filter} (h : Renders s spec filter) (hs : RendersList s specs filters) :
    RendersList s (spec :: specs) (filter.toList ++ filters) := by
  cases filter with
  | none =>
    have halways : spec.pruned.isAlways = true := h.absent.symm
    have hlist : prunedList (spec :: specs) = prunedList specs := by
      rw [prunedList, if_pos halways]
    exact ⟨hlist ▸ hs.all, hlist ▸ hs.any, hlist ▸ hs.empty⟩
  | some f =>
    have hrestricts : ¬ spec.pruned.isAlways = true := by
      rw [← h.absent]
      nofun
    have hlist : prunedList (spec :: specs) = spec.pruned :: prunedList specs := by
      rw [prunedList, if_neg hrestricts]
    have hf : f.passes s = .ok (spec.pruned.holds s.affirms) :=
      (allPass_singleton f).symm.trans h.passes
    rw [Option.toList_some, List.singleton_append]
    refine ⟨?_, ?_, ?_⟩
    · rw [allPass, hf, hlist, everyHolds]
      cases spec.pruned.holds s.affirms with
      | true => exact hs.all
      | false => rfl
    · rw [anyPasses, hf, hlist, someHolds]
      cases spec.pruned.holds s.affirms with
      | true => rfl
      | false => exact hs.any
    · rw [hlist]
      rfl

theorem rendersPart_some {specs : List FilterSpec} {filters : List Filter}
    (h : RendersList s specs filters) : RendersPart s (some specs) (some filters) := by
  refine ⟨?_, ?_, rfl⟩
  · exact (allPass_singleton (allOf filters)).trans h.all
  · rw [prunedPart, anyHolds, ← h.empty]
    refine (allPass_singleton (anyOf filters)).trans ?_
    cases filters with
    | nil => rfl
    | cons first rest => exact h.any

/-- What is excluded is excluded unless it restricts nothing. -/
theorem allPass_negation {without : FilterSpec} {filter : Option Filter}
    (h : Renders s without filter) : allPass (filter.map negation).toList s =
      .ok (without.pruned.isAlways || !without.pruned.holds s.affirms) := by
  rw [← h.absent]
  cases filter with
  | none => rfl
  | some f =>
    have hf : f.passes s = .ok (without.pruned.holds s.affirms) :=
      (allPass_singleton f).symm.trans h.passes
    refine (allPass_singleton (negation f)).trans ?_
    rw [passes, hf]
    rfl

theorem renders_group {all any : Option (List FilterSpec)} {without : FilterSpec}
    {alls anys : Option (List Filter)} {filter : Option Filter} (hall : RendersPart s all alls)
    (hany : RendersPart s any anys) (hwithout : Renders s without filter) :
    Renders s (.group all any without) (join? ((alls.map allOf).toList ++
      (anys.map anyOf).toList ++ (filter.map negation).toList)) := by
  refine ⟨?_, ?_⟩
  · rw [allPass_join?, pruned, holds_ofParts]
    exact allPass_append (allPass_append hall.all hany.any) (allPass_negation hwithout)
  · rw [isNone_join?, pruned, isAlways_ofParts, isSome_prunedPart, isSome_prunedPart,
      ← hwithout.absent, ← hall.present, ← hany.present]
    cases alls <;> cases anys <;> cases filter <;> rfl

mutual

theorem exists_renders {spec : FilterSpec} (h : spec.Evaluates s) :
    ∃ filter, ofSpec spec = .ok filter ∧ Renders s spec filter := by
  match spec, h with
  | .always, _ => exact ⟨none, rfl, rfl, rfl⟩
  | .expression source, h =>
    obtain ⟨e, v, hparse, hv⟩ := h
    have hholds : e.holds s = .ok v.isTruthy := by
      rw [Expr.holds, hv]
      rfl
    refine ⟨some (expression e), ?_, ?_, rfl⟩
    · rw [ofSpec, hparse]
      rfl
    · refine (allPass_singleton (expression e)).trans ?_
      simp only [passes, pruned, holds, Scope.affirms, hparse, hholds]
      rfl
  | .group all any without, ⟨hall, hany, hwithout⟩ =>
    obtain ⟨alls, halls, hrendersAll⟩ := exists_rendersPart hall
    obtain ⟨anys, hanys, hrendersAny⟩ := exists_rendersPart hany
    obtain ⟨filter, hfilter, hrenders⟩ := exists_renders hwithout
    refine ⟨_, ?_, renders_group hrendersAll hrendersAny hrenders⟩
    rw [ofSpec, halls, hanys, hfilter]
    rfl

theorem exists_rendersPart {part : Option (List FilterSpec)} (h : PartEvaluates s part) :
    ∃ filters, ofOptional part = .ok filters ∧ RendersPart s part filters := by
  match part, h with
  | none, _ => exact ⟨none, rfl, rfl, rfl, rfl⟩
  | some specs, h =>
    obtain ⟨filters, hfilters, hrenders⟩ := exists_rendersList h
    refine ⟨some filters, ?_, rendersPart_some hrenders⟩
    rw [ofOptional, hfilters]
    rfl

theorem exists_rendersList {specs : List FilterSpec} (h : EachEvaluates s specs) :
    ∃ filters, ofSpecs specs = .ok filters ∧ RendersList s specs filters := by
  match specs, h with
  | [], _ => exact ⟨[], rfl, rfl, rfl, rfl⟩
  | spec :: specs, ⟨hspec, hspecs⟩ =>
    obtain ⟨filter, hfilter, hrenders⟩ := exists_renders hspec
    obtain ⟨filters, hfilters, hrendersList⟩ := exists_rendersList hspecs
    refine ⟨_, ?_, rendersList_cons hrenders hrendersList⟩
    rw [ofSpecs, hfilter, hfilters]
    rfl

end

/-- A prepared filter passes exactly where what is left of the written one holds; and that is what
is written, unless something that restricts nothing is excluded or one of several to choose
from. -/
theorem passes_iff_pruned_holds {spec : FilterSpec} (h : spec.Evaluates s) :
    ∃ filter passes, ofSpec spec = .ok filter ∧ allPass filter.toList s = .ok passes ∧
      (passes = true ↔ spec.pruned.holds s.affirms = true) ∧
      (spec.isSharp = true → (passes = true ↔ spec.holds s.affirms = true)) := by
  obtain ⟨filter, hfilter, hrenders⟩ := exists_renders h
  refine ⟨filter, _, hfilter, hrenders.passes, Iff.rfl, fun hsharp => ?_⟩
  rw [holds_pruned s.affirms hsharp]

/-- A group without parts, which restricts nothing, or what is false. -/
def nothingOrFalse : FilterSpec :=
  .group none (some [.group none none .always, .expression "false"]) .always

/-- All but what a group without parts lets pass, which is everything. -/
def butNothing : FilterSpec :=
  .group none none (.group none none .always)

/-- A scope in which nothing has a name. -/
def bareScope : Scope where
  strict := true
  now := default
  library := .builtin

theorem parse_false : Expr.parse "false" = .ok (.literal (.bool false) "false") := by
  decide +kernel

theorem nothingOrFalse_evaluates : nothingOrFalse.Evaluates bareScope :=
  ⟨trivial, ⟨⟨trivial, trivial, trivial⟩, ⟨_, _, parse_false, rfl⟩, trivial⟩, trivial⟩

theorem affirms_false : bareScope.affirms "false" = false := by
  rw [Scope.affirms, parse_false]
  rfl

theorem passes_iff_pruned_holds_nothingOrFalse :
    nothingOrFalse.Evaluates bareScope ∧ nothingOrFalse.isSharp = false ∧
      ∃ filter passes, ofSpec nothingOrFalse = .ok filter ∧
        allPass filter.toList bareScope = .ok passes ∧
        (passes = true ↔ nothingOrFalse.pruned.holds bareScope.affirms = true) :=
  have ⟨filter, passes, hfilter, hpasses, hpruned, _⟩ :=
    passes_iff_pruned_holds nothingOrFalse_evaluates
  ⟨nothingOrFalse_evaluates, rfl, filter, passes, hfilter, hpasses, hpruned⟩

/-- One of two holds, since a group without parts does, and the prepared filter does not pass; what
is excluded holds always, and the prepared filter passes. -/
theorem nothing_left_out :
    (nothingOrFalse.Evaluates bareScope ∧ nothingOrFalse.holds bareScope.affirms = true ∧
      ∃ filter, ofSpec nothingOrFalse = .ok filter ∧
        allPass filter.toList bareScope = .ok false) ∧
    (butNothing.Evaluates bareScope ∧ butNothing.holds bareScope.affirms = false ∧
      ∃ filter, ofSpec butNothing = .ok filter ∧ allPass filter.toList bareScope = .ok true) := by
  refine ⟨⟨nothingOrFalse_evaluates, rfl, ?_⟩, ⟨trivial, trivial, trivial, trivial, trivial⟩, rfl,
    none, rfl, rfl⟩
  obtain ⟨filter, hfilter, hrenders⟩ := exists_renders nothingOrFalse_evaluates
  have hleft : nothingOrFalse.pruned.holds bareScope.affirms = false := by
    show (true && (false || (bareScope.affirms "false" || false)) && (true || !true)) = false
    rw [affirms_false]
    rfl
  exact ⟨filter, hfilter, hleft ▸ hrenders.passes⟩

end Filter

/-! ## Filters in documents -/

namespace Schema

open FilterSpec

/-- Something is left of the filter, and nothing was lost from it. -/
structure Binds (spec : FilterSpec) : Prop where
  restricts : spec.restricts = true
  sharp : spec.isSharp = true

/-- A part of filters all of which restrict something. -/
def BindsAll (part : Option (List FilterSpec)) : Prop :=
  ∀ spec ∈ part.getD [], Binds spec

theorem areSharp_iff {specs : List FilterSpec} :
    areSharp specs = true ↔ ∀ spec ∈ specs, spec.isSharp = true := by
  induction specs with
  | nil => exact iff_of_true rfl (List.forall_mem_nil _)
  | cons spec specs ih => rw [areSharp, Bool.and_eq_true, List.forall_mem_cons, ih]

theorem BindsAll.sharp {part : Option (List FilterSpec)} (h : BindsAll part) :
    partIsSharp part = true ∧ choiceRestricts part = true := by
  refine ⟨?_, List.all_eq_true.mpr fun spec hspec => (h spec hspec).restricts⟩
  cases part with
  | none => rfl
  | some specs => exact areSharp_iff.mpr fun spec hspec => (h spec hspec).sharp

theorem binds_group {all any : Option (List FilterSpec)} {without : FilterSpec}
    (hall : BindsAll all) (hany : BindsAll any) (hwithout : without = .always ∨ Binds without)
    (hpart : all.isSome = true ∨ any.isSome = true ∨ Binds without) :
    Binds (.group all any without) := by
  refine ⟨?_, ?_⟩
  · rw [restricts, pruned, isAlways_ofParts, isSome_prunedPart, isSome_prunedPart]
    rcases hpart with h | h | h
    · rw [h]
      rfl
    · rw [h, Bool.not_true, Bool.and_false]
      rfl
    · have hleft : without.pruned.isAlways = false := by simpa [restricts] using h.restricts
      rw [hleft, Bool.and_false]
      rfl
  · simp only [isSharp, hall.sharp, hany.sharp, Bool.true_and]
    rcases hwithout with rfl | h
    · rfl
    · rw [h.restricts, h.sharp, Bool.and_true, Bool.or_true]

theorem filterOf_ne_always {v : Value} (h : isFilter v = true) : filterOf v ≠ .always := by
  cases v with
  | string source => nofun
  | mapping live entries => nofun
  | _ => cases h

/-- The entry is a part of a group: a list of filters, or a filter. -/
inductive IsPart : Value → Value → Prop
  | all {items : List Value} : areFilters items = true → IsPart (.string "and") (.list items)
  | any {items : List Value} : areFilters items = true → IsPart (.string "or") (.list items)
  | without {v : Value} : isFilter v = true → IsPart (.string "not") v

theorem IsPart.items {k : Value} {items : List Value} (h : IsPart k (.list items)) :
    areFilters items = true := by
  cases h with
  | all h => exact h
  | any h => exact h
  | without h => cases h

theorem isPart_of_areFilterParts {k v : Value} {rest : Entries}
    (h : areFilterParts ((k, v) :: rest) = true) : IsPart k v ∧ areFilterParts rest = true := by
  unfold areFilterParts at h
  obtain ⟨hfits, hrest⟩ := Bool.and_eq_true_iff.mp h
  refine ⟨?_, hrest⟩
  split at hfits
  · split at hfits
    · exact .all hfits
    · cases hfits
  · split at hfits
    · exact .any hfits
    · cases hfits
  · exact .without hfits
  · cases hfits

/-- A group with an entry has a part. -/
theorem exists_part {k v : Value} {rest : Entries} (h : IsPart k v) :
    (partsOf "and" ((k, v) :: rest)).isSome = true ∨ (partsOf "or" ((k, v) :: rest)).isSome = true ∨
      withoutOf ((k, v) :: rest) ≠ .always := by
  cases h with
  | all _ => exact .inl rfl
  | any _ => exact .inr (.inl rfl)
  | without hv => exact .inr (.inr (filterOf_ne_always hv))

mutual

/-- What has the form of a filter restricts something, and so does every part of it. -/
theorem binds_filterOf (v : Value) (h : isFilter v = true) : Binds (filterOf v) := by
  cases v with
  | string source => exact ⟨rfl, rfl⟩
  | mapping live entries =>
    simp only [isFilter, Bool.and_eq_true] at h
    obtain ⟨hentries, hparts⟩ := h
    have hwithout := binds_withoutOf entries hparts
    rw [filterOf]
    refine binds_group (bindsAll_partsOf entries hparts) (bindsAll_partsOf entries hparts)
      hwithout ?_
    match entries, hentries, hparts with
    | (k, v) :: rest, _, hparts =>
      rcases exists_part (isPart_of_areFilterParts hparts).1 with h | h | h
      · exact .inl h
      · exact .inr (.inl h)
      · exact .inr (.inr (hwithout.resolve_left h))
  | _ => cases h

theorem bindsAll_partsOf {key : String} (entries : Entries) (h : areFilterParts entries = true) :
    BindsAll (partsOf key entries) := by
  match entries, h with
  | [], _ => exact List.forall_mem_nil _
  | (k, v) :: rest, h =>
    obtain ⟨hpart, hrest⟩ := isPart_of_areFilterParts h
    have hlater : BindsAll (partsOf key rest) := bindsAll_partsOf rest hrest
    cases v with
    | list items =>
      have hitems := binds_filtersOf items hpart.items
      cases k with
      | string k =>
        rw [partsOf]
        split
        · exact hitems
        · exact hlater
      | _ => exact hlater
    | _ => cases k <;> exact hlater

theorem binds_withoutOf (entries : Entries) (h : areFilterParts entries = true) :
    withoutOf entries = .always ∨ Binds (withoutOf entries) := by
  match entries, h with
  | [], _ => exact .inl rfl
  | (k, v) :: rest, h =>
    obtain ⟨hpart, hrest⟩ := isPart_of_areFilterParts h
    have hlater := binds_withoutOf rest hrest
    have hv := binds_filterOf v
    cases hpart with
    | all _ => exact hlater
    | any _ => exact hlater
    | without h => exact .inr (hv h)

theorem binds_filtersOf (items : List Value) (h : areFilters items = true) :
    ∀ spec ∈ filtersOf items, Binds spec := by
  match items, h with
  | [], _ => exact List.forall_mem_nil _
  | v :: vs, h =>
    obtain ⟨hv, hvs⟩ := Bool.and_eq_true_iff.mp h
    rw [filtersOf]
    exact List.forall_mem_cons.mpr ⟨binds_filterOf v hv, binds_filtersOf vs hvs⟩

end

end Schema

/-- A filter of the form that documents have passes exactly where it holds as it is written. -/
theorem Filter.passes_filterOf {v : Value} {s : Scope} (hform : Schema.isFilter v = true)
    (h : (Schema.filterOf v).Evaluates s) :
    ∃ filter passes, ofSpec (Schema.filterOf v) = .ok filter ∧
      allPass filter.toList s = .ok passes ∧
      (passes = true ↔ (Schema.filterOf v).holds s.affirms = true) := by
  obtain ⟨filter, hfilter, hrenders⟩ := exists_renders h
  refine ⟨filter, _, hfilter, hrenders.passes, ?_⟩
  rw [FilterSpec.holds_pruned s.affirms (Schema.binds_filterOf v hform).sharp]

end NoteQuery
