/-
Formulas stand behind all to which they refer.

Putting formulas in order is a search in depth: `path` are the names that the search came through
and `done` those that it has left.  A step of it keeps two things, that every name on the path
refers to the current one, at once or through others, and that whatever is done stands behind what
it refers to (`Arranged`).  By the first a name that is met again on the path refers to itself; by
the second no name that is done does, so the search fails exactly on formulas that refer to each
other in a circle (`order_outcome`).  The path has no name twice, which bounds the depth.
-/
import NoteQuery.Proofs.Mappings
import NoteQuery.Proofs.Sorting
import NoteQuery.Query.FormulaOrder
import Mathlib.Data.List.Perm.Basic
import Mathlib.Data.List.Perm.Subperm
import Mathlib.Logic.Relation

namespace NoteQuery

open Relation

/-- The texts of formulas under their names, no name twice. -/
structure FormulaTexts where
  texts : List (String × String)
  distinct : (texts.map Prod.fst).Nodup

namespace FormulaTexts

variable (fs : FormulaTexts)

/-- The mapping of names to texts. -/
def keyed : Keyed String :=
  fs.texts.map fun (name, text) => (.string name, text)

def names : List String :=
  fs.texts.map Prod.fst

/-- One formula refers to another, or to itself. -/
def Refers (f g : String) : Prop :=
  ∃ text, (f, text) ∈ fs.texts ∧ g ∈ FormulaOrder.references text ∧ g ∈ fs.names

/-- The declared names to which a formula refers, as they are met in its text. -/
def referred (name : String) : List String :=
  (FormulaOrder.references ((fs.texts.lookup name).getD "")).filter (· ∈ fs.names)

/-- Names in an order of computation: each is declared, is new, and stands behind all to which it
refers. -/
inductive Arranged : List String → Prop
  | nil : Arranged []
  | snoc {done : List String} {name : String} : Arranged done → name ∈ fs.names → name ∉ done →
      (∀ other, fs.Refers name other → other ∈ done) → Arranged (done ++ [name])

/-! ## Texts by name -/

variable {fs}

theorem lookup_eq_some_iff {name text : String} :
    fs.texts.lookup name = some text ↔ (name, text) ∈ fs.texts :=
  lookup_eq_some_iff_mem fs.distinct

theorem mem_names_iff {name : String} : name ∈ fs.names ↔ ∃ text, (name, text) ∈ fs.texts := by
  simp only [names, List.mem_map, Prod.exists, exists_and_right, exists_eq_right]

theorem mem_referred_iff {f g : String} : g ∈ fs.referred f ↔ fs.Refers f g := by
  rw [referred, List.mem_filter, decide_eq_true_eq]
  constructor
  · rintro ⟨hg, hdeclared⟩
    cases htext : fs.texts.lookup f with
    | none =>
      rw [htext] at hg
      exact absurd hg List.not_mem_nil
    | some text =>
      rw [htext] at hg
      exact ⟨text, lookup_eq_some_iff.mp htext, hg, hdeclared⟩
  · rintro ⟨text, htext, hg, hdeclared⟩
    rw [lookup_eq_some_iff.mpr htext]
    exact ⟨hg, hdeclared⟩

theorem find?_keyed (name : String) : fs.keyed.find? (.string name) = fs.texts.lookup name := by
  rw [keyed]
  induction fs.texts with
  | nil => rfl
  | cons first rest ih =>
    obtain ⟨other, text⟩ := first
    have hkey : (Value.string other).sameKey (.string name) = (name == other) := BEq.comm
    rw [List.lookup_cons, List.map_cons, Keyed.find?_cons, hkey, ih]
    cases name == other with
    | true => rfl
    | false => rfl

/-- What is no text is not the name of a formula. -/
theorem find?_keyed_of_ne {key : Value} (hkey : ∀ name, key ≠ .string name) :
    fs.keyed.find? key = none := by
  have hother (name : String) : (Value.string name).sameKey key = false := by
    cases key with
    | string s => exact absurd rfl (hkey s)
    | _ => rfl
  rw [Keyed.find?, Option.map_eq_none_iff, List.find?_eq_none]
  intro entry hentry
  obtain ⟨⟨name, text⟩, -, rfl⟩ := List.mem_map.mp hentry
  rw [hother, Bool.not_eq_true]

theorem find?_keyed_of_perm {other : FormulaTexts} (hperm : other.texts.Perm fs.texts)
    (key : Value) : other.keyed.find? key = fs.keyed.find? key := by
  by_cases hkey : ∃ name, key = .string name
  · obtain ⟨name, rfl⟩ := hkey
    rw [find?_keyed, find?_keyed]
    refine Option.ext fun text => ?_
    rw [lookup_eq_some_iff, lookup_eq_some_iff, hperm.mem_iff]
  · have hne : ∀ name, key ≠ .string name := fun name h => hkey ⟨name, h⟩
    rw [find?_keyed_of_ne hne, find?_keyed_of_ne hne]

theorem find?_declaredReferences (formulas : Keyed String) (key : Value) :
    (FormulaOrder.declaredReferences formulas).find? key = (formulas.find? key).map fun text =>
      ((FormulaOrder.references text).map Value.string).filter fun other =>
        (formulas.find? other).isSome := by
  rw [FormulaOrder.declaredReferences, Keyed.find?, Keyed.find?, List.find?_map, Option.map_map,
    Option.map_map]
  rfl

theorem find?_declaredReferences_keyed (name : String) :
    ((FormulaOrder.declaredReferences fs.keyed).find? (.string name)).getD [] =
      (fs.referred name).map Value.string := by
  have hdeclared (other : String) :
      (fs.keyed.find? (.string other)).isSome = decide (other ∈ fs.names) := by
    rw [find?_keyed, Bool.eq_iff_iff, Option.isSome_iff_exists, decide_eq_true_eq, mem_names_iff]
    simp only [lookup_eq_some_iff]
  rw [find?_declaredReferences, find?_keyed, referred]
  cases fs.texts.lookup name with
  | none => rfl
  | some text =>
    rw [Option.map_some, Option.getD_some, Option.getD_some, List.filter_map]
    exact congrArg (List.map Value.string) (List.filter_congr fun other _ => hdeclared other)

/-! ## Orders of computation -/

namespace Arranged

theorem nodup {done : List String} (h : fs.Arranged done) : done.Nodup := by
  induction h with
  | nil => exact List.nodup_nil
  | snoc _ _ hnew _ ih =>
    rw [← List.concat_eq_append]
    exact ih.concat hnew

theorem declared {done : List String} (h : fs.Arranged done) :
    ∀ name ∈ done, name ∈ fs.names := by
  induction h with
  | nil => exact List.forall_mem_nil _
  | snoc _ hname _ _ ih =>
    exact List.forall_mem_append.mpr ⟨ih, List.forall_mem_singleton.mpr hname⟩

/-- Whatever a name refers to stands before it. -/
theorem idxOf_lt {done : List String} (h : fs.Arranged done) {f g : String} (hf : f ∈ done)
    (hrefers : fs.Refers f g) : done.idxOf g < done.idxOf f := by
  induction h with
  | nil => exact absurd hf List.not_mem_nil
  | @snoc done name _ _ hnew hothers ih =>
    by_cases hold : f ∈ done
    · have hlt := ih hold
      have hg : g ∈ done :=
        List.idxOf_lt_length_iff.mp (Nat.lt_trans hlt (List.idxOf_lt_length_of_mem hold))
      rwa [List.idxOf_append_of_mem hg, List.idxOf_append_of_mem hold]
    · obtain rfl : f = name := by
        rcases List.mem_append.mp hf with h | h
        · exact absurd h hold
        · exact List.mem_singleton.mp h
      have hg : g ∈ done := hothers g hrefers
      rw [List.idxOf_append_of_mem hg, List.idxOf_append_of_notMem hnew]
      have := List.idxOf_lt_length_of_mem hg
      omega

theorem mem_of_refers {done : List String} (h : fs.Arranged done) {f g : String} (hf : f ∈ done)
    (hrefers : fs.Refers f g) : g ∈ done :=
  List.idxOf_lt_length_iff.mp
    (Nat.lt_trans (h.idxOf_lt hf hrefers) (List.idxOf_lt_length_of_mem hf))

/-- No name in order refers to itself, not even through others. -/
theorem no_circle {done : List String} (h : fs.Arranged done) {f : String} (hf : f ∈ done) :
    ¬ TransGen fs.Refers f f := by
  have hbefore {g : String} (hrefers : TransGen fs.Refers f g) :
      g ∈ done ∧ done.idxOf g < done.idxOf f := by
    induction hrefers with
    | single hrefers => exact ⟨h.mem_of_refers hf hrefers, h.idxOf_lt hf hrefers⟩
    | tail _ hrefers ih =>
      exact ⟨h.mem_of_refers ih.1 hrefers, Nat.lt_trans (h.idxOf_lt ih.1 hrefers) ih.2⟩
  exact fun hcircle => absurd (hbefore hcircle).2 (Nat.lt_irrefl _)

end Arranged

/-! ## The search -/

variable (fs) in
/-- What a search for names may come to: it puts them, and nothing of its path, in an order of
computation behind what was done, or it finds a name that refers to itself. -/
inductive Searched (path done names : List String) : Except QueryError (List Value) → Prop
  | left {done' : List String} : fs.Arranged done' → (∀ name ∈ path, name ∉ done') →
      (∀ name ∈ done, name ∈ done') → (∀ name ∈ names, name ∈ done') →
      Searched path done names (.ok (done'.map .string))
  | circle {name : String} : TransGen fs.Refers name name →
      Searched path done names (.error (.formulaCycle name))

theorem Searched.bind {path done names more : List String}
    {x : Except QueryError (List Value)} {f : List Value → Except QueryError (List Value)}
    (hx : fs.Searched path done names x)
    (hf : ∀ done', fs.Arranged done' → (∀ name ∈ path, name ∉ done') →
      fs.Searched path done' more (f (done'.map .string))) :
    fs.Searched path done (names ++ more) (x >>= f) := by
  cases hx with
  | circle hcircle => exact .circle hcircle
  | @left between hbetween hpath hkept hnames =>
    have hrest := hf between hbetween hpath
    rw [show Except.ok (between.map Value.string) >>= f = f (between.map Value.string) from rfl]
    generalize f (between.map Value.string) = outcome at hrest
    cases hrest with
    | circle hcircle => exact .circle hcircle
    | left hdone' hpath' hkept' hmore =>
      exact .left hdone' hpath' (fun name hname => hkept' name (hkept name hname))
        (List.forall_mem_append.mpr ⟨fun name hname => hkept' name (hnames name hname), hmore⟩)

/-- A name follows all to which it refers. -/
theorem Searched.snoc {path done : List String} {name : String}
    {x : Except QueryError (List Value)} (hname : name ∈ fs.names) (hmet : name ∉ path)
    (hx : fs.Searched (name :: path) done (fs.referred name) x) :
    fs.Searched path done [name] (x >>= fun done => pure (done ++ [.string name])) := by
  cases hx with
  | circle hcircle => exact .circle hcircle
  | @left done' hdone' hapart hkept hnames =>
    obtain ⟨hnew, hapart⟩ := List.forall_mem_cons.mp hapart
    have hsnoc : fs.Arranged (done' ++ [name]) :=
      .snoc hdone' hname hnew fun other h => hnames other (mem_referred_iff.mpr h)
    have hleft : fs.Searched path done [name] (.ok ((done' ++ [name]).map .string)) := by
      refine .left hsnoc (fun earlier h => ?_)
        (fun other h => List.mem_append_left [name] (hkept other h))
        (List.forall_mem_singleton.mpr (List.mem_append_right done' List.mem_cons_self))
      rw [List.mem_append, List.mem_singleton]
      rintro (hbefore | rfl)
      · exact hapart earlier h hbefore
      · exact hmet h
    rwa [List.map_append] at hleft

theorem foldlM_searched {visit : List Value → Value → Except QueryError (List Value)}
    {path names : List String}
    (hvisit : ∀ name ∈ names, ∀ done, fs.Arranged done → (∀ name ∈ path, name ∉ done) →
      fs.Searched path done [name] (visit (done.map .string) (.string name)))
    {done : List String} (hdone : fs.Arranged done) (hpath : ∀ name ∈ path, name ∉ done) :
    fs.Searched path done names ((names.map Value.string).foldlM visit (done.map .string)) := by
  induction names generalizing done with
  | nil => exact .left hdone hpath (fun _ hname => hname) (List.forall_mem_nil _)
  | cons name names ih =>
    rw [List.forall_mem_cons] at hvisit
    rw [List.map_cons, List.foldlM_cons]
    exact (hvisit.1 done hdone hpath).bind fun done' hdone' hpath' => ih hvisit.2 hdone' hpath'

theorem any_sameKey (names : List String) (name : String) :
    (names.map Value.string).any (·.sameKey (.string name)) = decide (name ∈ names) := by
  rw [List.any_map, ← List.contains_eq_mem, List.contains_eq_any_beq]
  exact List.any_congr rfl fun other => BEq.comm

/-- A step of the search, from what the steps below it come to.  What follows on a path is
referred to by all of it. -/
theorem visit_searched {fuel : Nat} {path done : List String} {name : String}
    (hname : name ∈ fs.names) (hfuel : fs.names.length < path.length + fuel)
    (hpath : path.Nodup) (hdeclared : ∀ earlier ∈ path, earlier ∈ fs.names)
    (hrefers : ∀ earlier ∈ path, TransGen fs.Refers earlier name)
    (hdone : fs.Arranged done) (hapart : ∀ earlier ∈ path, earlier ∉ done) :
    fs.Searched path done [name] (FormulaOrder.visit (FormulaOrder.declaredReferences fs.keyed)
      fuel (path.map .string) (.string name) (done.map .string)) := by
  induction fuel generalizing path done name with
  | zero =>
    -- the path would have more names than there are
    have := (List.subperm_of_subset hpath hdeclared).length_le
    omega
  | succ fuel ih =>
    rw [FormulaOrder.visit, any_sameKey, any_sameKey, find?_declaredReferences_keyed]
    by_cases hold : name ∈ done
    · rw [if_pos (decide_eq_true hold)]
      exact .left hdone hapart (fun _ h => h) (List.forall_mem_singleton.mpr hold)
    by_cases hmet : name ∈ path
    · rw [if_neg (by simpa using hold), if_pos (decide_eq_true hmet)]
      exact .circle (hrefers name hmet)
    rw [if_neg (by simpa using hold), if_neg (by simpa using hmet)]
    have hothers : fs.Searched (name :: path) done (fs.referred name)
        (((fs.referred name).map Value.string).foldlM (fun done other =>
          FormulaOrder.visit (FormulaOrder.declaredReferences fs.keyed) fuel
            ((name :: path).map .string) other done) (done.map .string)) := by
      refine foldlM_searched (fun other hother done' hdone' hapart' => ?_) hdone
        (List.forall_mem_cons.mpr ⟨hold, hapart⟩)
      have hnext : fs.Refers name other := mem_referred_iff.mp hother
      obtain ⟨-, -, -, hother⟩ := id hnext
      refine ih hother (by simp only [List.length_cons]; omega) (List.nodup_cons.mpr ⟨hmet, hpath⟩)
        (List.forall_mem_cons.mpr ⟨hname, hdeclared⟩)
        (List.forall_mem_cons.mpr ⟨.single hnext, fun earlier h => (hrefers earlier h).tail hnext⟩)
        hdone' hapart'
    exact hothers.snoc hname hmet

/-! ## The order -/

theorem nameBefore_orders :
    Sorting.Orders FormulaOrder.nameBefore fun name => ∃ s, name = .string s where
  decides := by
    rintro _ _ ⟨s, rfl⟩ ⟨t, rfl⟩
    exact ⟨_, rfl⟩
  asymm := by
    rintro _ _ ⟨s, rfl⟩ ⟨t, rfl⟩ hlt
    have hlt : s < t := of_decide_eq_true (Except.ok.inj hlt)
    exact congrArg Except.ok (decide_eq_false (String.lt_asymm hlt))
  trans := by
    rintro _ _ _ ⟨s, rfl⟩ ⟨t, rfl⟩ ⟨u, rfl⟩ hst htu
    have hst : ¬ s < t := of_decide_eq_false (Except.ok.inj hst)
    have htu : ¬ t < u := of_decide_eq_false (Except.ok.inj htu)
    refine congrArg Except.ok (decide_eq_false ?_)
    rw [String.not_lt] at hst htu ⊢
    exact String.le_trans htu hst

theorem keys_keyed : fs.keyed.keys = fs.names.map Value.string := by
  rw [keyed, Keyed.keys, names, List.map_map, List.map_map]
  rfl

theorem keys_are_texts : ∀ key ∈ fs.keyed.keys, ∃ s, key = .string s := by
  rw [keys_keyed, List.forall_mem_map]
  exact fun name _ => ⟨name, rfl⟩

variable (fs) in
theorem sort_keys : ∃ sorted : List String,
    Sorting.sort FormulaOrder.nameBefore fs.keyed.keys = .ok (sorted.map .string) ∧
      sorted.Perm fs.names := by
  obtain ⟨keys, hsort, hperm, -⟩ := Sorting.sort_inOrder nameBefore_orders keys_are_texts
  rw [keys_keyed] at hperm
  obtain ⟨sorted, rfl, hnames⟩ :
      Comp (· = List.map Value.string ·) List.Perm keys fs.names := by
    rw [List.eq_map_comp_perm]
    exact hperm
  exact ⟨sorted, hsort, hnames⟩

variable (fs) in
/-- The order is one of computation, unless a formula refers to itself. -/
theorem order_cases :
    (∃ done : List String, FormulaOrder.order fs.keyed = .ok (done.map .string) ∧
      fs.Arranged done ∧ done.Perm fs.names) ∨
    ∃ name, FormulaOrder.order fs.keyed = .error (.query (.formulaCycle name)) ∧
      TransGen fs.Refers name name := by
  obtain ⟨sorted, hsort, hperm⟩ := fs.sort_keys
  have hsearched : fs.Searched [] [] sorted
      (FormulaOrder.arrange (FormulaOrder.declaredReferences fs.keyed) (sorted.map .string)) := by
    refine foldlM_searched (fun name hname done hdone _ => ?_) .nil (List.forall_mem_nil _)
    refine visit_searched (hperm.mem_iff.mp hname) ?_ List.nodup_nil (List.forall_mem_nil _)
      (List.forall_mem_nil _) hdone (List.forall_mem_nil _)
    rw [List.length_map, hperm.length_eq, List.length_nil]
    omega
  have horder {outcome : Except QueryError (List Value)}
      (h : FormulaOrder.arrange (FormulaOrder.declaredReferences fs.keyed)
        (sorted.map .string) = outcome) :
      FormulaOrder.order fs.keyed = outcome.mapError .query := by
    rw [FormulaOrder.order, hsort, ← h]
    rfl
  generalize houtcome : FormulaOrder.arrange _ _ = outcome at hsearched
  cases hsearched with
  | circle hcircle => exact .inr ⟨_, horder houtcome, hcircle⟩
  | @left done hdone _ _ hnames =>
    refine .inl ⟨done, horder houtcome, hdone, ?_⟩
    refine (List.perm_ext_iff_of_nodup hdone.nodup fs.distinct).mpr fun name => ?_
    exact ⟨hdone.declared name, fun h => hnames name (hperm.mem_iff.mpr h)⟩

theorem visit_congr {refs refs' : FormulaOrder.References}
    (h : ∀ name, refs.find? name = refs'.find? name) (fuel : Nat) (path : List Value)
    (name : Value) (done : List Value) :
    FormulaOrder.visit refs fuel path name done = FormulaOrder.visit refs' fuel path name done := by
  induction fuel generalizing path name done with
  | zero => rfl
  | succ fuel ih => simp only [FormulaOrder.visit, h, ih]

/-- The order of declaration plays no part. -/
theorem order_of_perm {other : FormulaTexts} (hperm : other.texts.Perm fs.texts) :
    FormulaOrder.order other.keyed = FormulaOrder.order fs.keyed := by
  have hsort : Sorting.sort FormulaOrder.nameBefore other.keyed.keys =
      Sorting.sort FormulaOrder.nameBefore fs.keyed.keys := by
    refine Sorting.sort_eq_of_perm nameBefore_orders keys_are_texts ?_
      ((hperm.map _).map _)
    rintro _ _ ⟨s, rfl⟩ ⟨t, rfl⟩ hst hts
    have hst : ¬ s < t := of_decide_eq_false (Except.ok.inj hst)
    have hts : ¬ t < s := of_decide_eq_false (Except.ok.inj hts)
    rw [String.not_lt] at hst hts
    exact congrArg Value.string (String.le_antisymm hts hst)
  have hrefs (name : Value) : (FormulaOrder.declaredReferences other.keyed).find? name =
      (FormulaOrder.declaredReferences fs.keyed).find? name := by
    simp only [find?_declaredReferences, find?_keyed_of_perm hperm]
  have harrange : FormulaOrder.arrange (FormulaOrder.declaredReferences other.keyed) =
      FormulaOrder.arrange (FormulaOrder.declaredReferences fs.keyed) := by
    funext names
    simp only [FormulaOrder.arrange, visit_congr hrefs]
  rw [FormulaOrder.order, FormulaOrder.order, hsort, harrange]

variable (fs) in
/-- Formulas are put in order exactly if none refers to itself, at once or through others, and
otherwise one that does is named.  The order has every name once, behind all to which its formula
refers, wherever the formulas were declared. -/
theorem order_outcome :
    ((∃ name, FormulaOrder.order fs.keyed = .error (.query (.formulaCycle name))) ↔
      ∃ name, TransGen fs.Refers name name) ∧
    (∀ name, FormulaOrder.order fs.keyed = .error (.query (.formulaCycle name)) →
      TransGen fs.Refers name name) ∧
    ((∀ name, ¬ TransGen fs.Refers name name) → ∃ done : List String,
      FormulaOrder.order fs.keyed = .ok (done.map .string) ∧ done.Perm fs.names ∧
        ∀ f g, fs.Refers f g → done.idxOf g < done.idxOf f) ∧
    ∀ other : FormulaTexts, other.texts.Perm fs.texts →
      FormulaOrder.order other.keyed = FormulaOrder.order fs.keyed := by
  have hdeclared {f g : String} (h : fs.Refers f g) : f ∈ fs.names := by
    obtain ⟨text, htext, -⟩ := h
    exact mem_names_iff.mpr ⟨text, htext⟩
  rcases fs.order_cases with ⟨done, horder, hdone, hperm⟩ | ⟨circular, horder, hcircle⟩
  · have hnone (name : String) : ¬ TransGen fs.Refers name name := by
      intro hcircle
      obtain ⟨next, hnext, -⟩ := TransGen.head'_iff.mp hcircle
      exact hdone.no_circle (hperm.mem_iff.mpr (hdeclared hnext)) hcircle
    refine ⟨⟨?_, fun ⟨name, h⟩ => absurd h (hnone name)⟩, ?_, fun _ => ⟨done, horder, hperm,
      fun f g h => hdone.idxOf_lt (hperm.mem_iff.mpr (hdeclared h)) h⟩, fun _ => order_of_perm⟩
    · rintro ⟨name, h⟩
      cases horder.symm.trans h
    · intro name h
      cases horder.symm.trans h
  · refine ⟨⟨fun _ => ⟨circular, hcircle⟩, fun _ => ⟨circular, horder⟩⟩, ?_,
      fun h => absurd hcircle (h circular), fun _ => order_of_perm⟩
    intro name h
    cases horder.symm.trans h
    exact hcircle

end FormulaTexts

end NoteQuery
