/-
One representative of each value.

Going through a list and leaving out what has been seen keeps the elements at the places where a
label stands for the first time (`newcomers_eq`).  So `unique` gives the first element of each
structural key, as many as the summary of that name counts.  Where all numbers are integers a key
tells its value (`Integral.exact`), and every element of the list is found in what `unique` gives
(`unique_firsts`).
-/
import NoteQuery.Eval.Methods
import NoteQuery.Proofs.Equality
import NoteQuery.Proofs.Mappings
import NoteQuery.Query.Summary
import Mathlib.Data.List.Nodup

namespace NoteQuery

/-! ## The first of each label -/

section Firsts

variable {α κ : Type} [DecidableEq κ] {label : α → κ}

/-- The places of a list at which a label stands that has not stood before. -/
def firstPlaces (label : α → κ) (as : List α) : List (Fin as.length) :=
  (List.finRange as.length).filter fun i => ∀ j < i, label as[j] ≠ label as[i]

/-- The elements whose labels are neither among those seen nor those of earlier elements. -/
def newcomers (label : α → κ) (seen : List κ) : List α → List α
  | [] => []
  | a :: as =>
    if label a ∈ seen then newcomers label seen as
    else a :: newcomers label (label a :: seen) as

theorem newcomers_eq (seen : List κ) (as : List α) : newcomers label seen as =
    ((List.finRange as.length).filter fun i =>
      label as[i] ∉ seen ∧ ∀ j < i, label as[j] ≠ label as[i]).map (as[·]) := by
  induction as generalizing seen with
  | nil => rfl
  | cons a as ih =>
    -- Behind the first element its label counts as seen.
    have hrest (seen' : List κ) (h : ∀ k, k ∈ seen' ↔ k ∈ label a :: seen) :
        newcomers label seen' as = (((List.finRange as.length).map Fin.succ).filter fun i =>
          label (a :: as)[i] ∉ seen ∧ ∀ j < i, label (a :: as)[j] ≠ label (a :: as)[i]).map
            ((a :: as)[·]) := by
      rw [ih, List.filter_map, List.map_map]
      congr 1
      refine List.filter_congr fun i _ => decide_eq_decide.mpr ?_
      rw [h, List.mem_cons, not_or, Fin.forall_fin_succ]
      constructor
      · rintro ⟨⟨hother, hnew⟩, hfirst⟩
        exact ⟨hnew, fun _ => Ne.symm hother, fun j hj => hfirst j (Fin.succ_lt_succ_iff.mp hj)⟩
      · rintro ⟨hnew, hother, hfirst⟩
        exact ⟨⟨Ne.symm (hother (Fin.succ_pos i)), hnew⟩,
          fun j hj => hfirst j (Fin.succ_lt_succ_iff.mpr hj)⟩
    have hplaces : List.finRange (a :: as).length = 0 :: (List.finRange as.length).map Fin.succ :=
      List.finRange_succ
    rw [newcomers, hplaces, List.filter_cons]
    by_cases hseen : label a ∈ seen
    · rw [if_pos hseen, if_neg (by simp [hseen])]
      refine hrest seen fun k => ?_
      rw [List.mem_cons, or_iff_right_of_imp]
      rintro rfl
      exact hseen
    · rw [if_neg hseen, if_pos (by simp [hseen]), List.map_cons]
      exact congrArg (a :: ·) (hrest _ fun _ => Iff.rfl)

theorem newcomers_nil_eq (as : List α) :
    newcomers label [] as = (firstPlaces label as).map (as[·]) := by
  rw [newcomers_eq, firstPlaces]
  simp only [List.not_mem_nil, not_false_eq_true, true_and]

theorem newcomers_subset {seen : List κ} {as : List α} : newcomers label seen as ⊆ as := by
  intro a ha
  rw [newcomers_eq, List.mem_map] at ha
  obtain ⟨i, -, rfl⟩ := ha
  exact List.getElem_mem _

theorem label_not_mem_of_newcomers {seen : List κ} {as : List α} {a : α}
    (h : a ∈ newcomers label seen as) : label a ∉ seen := by
  rw [newcomers_eq, List.mem_map] at h
  obtain ⟨i, hi, rfl⟩ := h
  exact (of_decide_eq_true (List.mem_filter.mp hi).2).1

theorem nodup_newcomers (seen : List κ) (as : List α) :
    ((newcomers label seen as).map label).Nodup := by
  induction as generalizing seen with
  | nil => exact .nil
  | cons a as ih =>
    rw [newcomers]
    split
    · exact ih seen
    · refine List.nodup_cons.mpr ⟨fun h => ?_, ih _⟩
      obtain ⟨b, hb, hlabel⟩ := List.mem_map.mp h
      exact label_not_mem_of_newcomers hb (hlabel ▸ List.mem_cons_self)

/-- No label gets lost. -/
theorem mem_labels_newcomers {seen : List κ} {as : List α} {k : κ} (hk : k ∉ seen) :
    k ∈ (newcomers label seen as).map label ↔ k ∈ as.map label := by
  induction as generalizing seen with
  | nil => exact Iff.rfl
  | cons a as ih =>
    rw [newcomers, List.map_cons, List.mem_cons]
    split
    · next hseen =>
      rw [ih hk, or_iff_right]
      rintro rfl
      exact hk hseen
    · rw [List.map_cons, List.mem_cons]
      by_cases ha : k = label a
      · exact iff_of_true (.inl ha) (.inl ha)
      · rw [ih (List.not_mem_cons_of_ne_of_not_mem ha hk)]

theorem newcomers_concat (seen : List κ) (as : List α) (a : α) :
    newcomers label seen (as ++ [a]) = newcomers label seen as ++
      if label a ∈ seen ∨ label a ∈ as.map label then [] else [a] := by
  induction as generalizing seen with
  | nil => simp only [List.nil_append, newcomers, List.map_nil, List.not_mem_nil, or_false]
  | cons b as ih =>
    simp only [List.cons_append, newcomers, List.map_cons, List.mem_cons, ← or_assoc, ih]
    split
    · next hseen =>
      have hold : label a = label b → label a ∈ seen := fun h => h ▸ hseen
      simp only [or_iff_left_of_imp hold]
    · rw [List.cons_append]
      simp only [or_comm]

theorem newcomers_eq_self {seen : List κ} {as : List α} (hnodup : (as.map label).Nodup)
    (hnew : ∀ a ∈ as, label a ∉ seen) : newcomers label seen as = as := by
  induction as generalizing seen with
  | nil => rfl
  | cons a as ih =>
    obtain ⟨ha, has⟩ := List.forall_mem_cons.mp hnew
    obtain ⟨hother, hnodup⟩ := List.nodup_cons.mp hnodup
    rw [newcomers, if_neg ha, ih hnodup]
    intro b hb hseen
    rcases List.mem_cons.mp hseen with hsame | hseen
    · exact hother (hsame ▸ List.mem_map_of_mem hb)
    · exact has b hb hseen

end Firsts

namespace Value

/-! ## Integral values -/

/-- The numbers of the value and the amounts of its durations are integers, and its patterns were
read. -/
inductive Integral : Value → Prop
  | shown {v : Value} {s : String} : v.shown? = some s → v.kind ≠ .number → v.kind ≠ .regexp →
      Integral v
  | moment {v : Value} {t : Timestamp} : v.moment? = some t → Integral v
  | int (n : Int) : Integral (.int n)
  | duration {d : Duration} : (∀ p ∈ d.parts, ∃ n, p.amount = .int n) → Integral (.duration d)
  | pattern {body flags : String} {p : Pattern} : Pattern.create body flags = .ok p →
      Integral (.pattern p)
  | list {vs : List Value} : (∀ v ∈ vs, Integral v) → Integral (.list vs)
  | mapping {live : Bool} {es : Entries} : (∀ e ∈ es, Integral e.2) → Integral (.mapping live es)

theorem exists_epochMillis {v : Value} {t : Timestamp} {cs : List Char} (ht : v.moment? = some t)
    (h : v.stableChars = .ok cs) : ∃ millis, t.epochMillis = .ok millis := by
  have hkey : momentKey t = .ok cs := by
    cases v with
    | date | timestamp =>
      cases ht
      exact h
    | _ => cases ht
  obtain ⟨millis, hmillis, -⟩ := bind_eq_ok.mp hkey
  exact ⟨millis, hmillis⟩

/-- Integral values with a structural key are exact. -/
theorem Integral.exact {v : Value} (h : Integral v) {cs : List Char}
    (hkey : v.stableChars = .ok cs) : Exact v := by
  induction h generalizing cs with
  | shown hs hnumber hpattern => exact .shown hs hnumber hpattern
  | moment ht =>
    obtain ⟨millis, hmillis⟩ := exists_epochMillis ht hkey
    exact .moment ht hmillis
  | int n => exact .int n
  | duration hd => exact .duration hd
  | pattern hread => exact .pattern (Pattern.slash_not_mem_flags hread)
  | list _ ih =>
    refine .list fun v hv => ?_
    obtain ⟨k, hk⟩ := exists_stableChars_items hkey v hv
    exact ih v hv hk
  | mapping _ ih =>
    refine .mapping fun e he => ?_
    obtain ⟨k, hk⟩ := (exists_stableChars_entries hkey).2 e he
    exact ih e he hk

/-! ## Without repetitions -/

theorem distinct_eq {vs : List Value} (hkeyed : ∀ v ∈ vs, ∃ k, v.stableKey = .ok k)
    (seen : List String) :
    Library.distinct seen vs = .ok (newcomers stableKey (seen.map .ok) vs) := by
  induction vs generalizing seen with
  | nil => rfl
  | cons v vs ih =>
    obtain ⟨⟨k, hk⟩, hvs⟩ := List.forall_mem_cons.mp hkeyed
    have hseen : v.stableKey ∈ seen.map Except.ok ↔ seen.contains k := by
      rw [hk, List.mem_map_of_injective fun _ _ => Except.ok.inj, List.contains_iff_mem]
    rw [Library.distinct, newcomers, hk]
    by_cases hold : seen.contains k
    · rw [if_pos (hk ▸ hseen.mpr hold), ← ih hvs]
      exact if_pos hold
    · rw [if_neg (hk ▸ mt hseen.mp hold), ← List.map_cons]
      refine (if_neg hold).trans ?_
      rw [ih hvs]
      rfl

theorem stableKey_map_ok {vs : List Value} {keys : List String}
    (h : vs.mapM stableKey = .ok keys) : vs.map stableKey = keys.map .ok := by
  rw [← List.forall₂_eq_eq_eq, List.forall₂_map_left_iff, List.forall₂_map_right_iff]
  exact mapM_eq_ok.mp h

/-- The summary counts the elements of a list in which every key is that of one element. -/
theorem apply_unique {vs us : List Value} (hkeyed : ∀ v ∈ vs, ∃ k, v.stableKey = .ok k)
    (hnodup : (us.map stableKey).Nodup)
    (hsame : ∀ k, k ∈ us.map stableKey ↔ k ∈ vs.map stableKey) :
    Summary.unique.apply vs = .ok (.int us.length) := by
  obtain ⟨keys, hkeys⟩ := exists_mapM_eq_ok.mpr hkeyed
  have hperm : (keys.eraseDups.map Except.ok).Perm (us.map stableKey) := by
    refine (List.perm_ext_iff_of_nodup ((nodup_eraseDups keys).map fun _ _ => Except.ok.inj)
      hnodup).mpr fun k => ?_
    rw [hsame, stableKey_map_ok hkeys]
    simp only [List.mem_map, List.mem_eraseDups]
  have hlength := hperm.length_eq
  rw [List.length_map, List.length_map] at hlength
  rw [Summary.apply, hkeys]
  exact congrArg (fun n : Nat => Except.ok (Value.int n)) hlength

theorem anyEqual_of_mem {strict : Bool} {u v : Value} {us : List Value}
    (hall : ∀ u ∈ us, ∃ same, u.equals strict v = .ok same) (hu : u ∈ us)
    (h : u.equals strict v = .ok true) : Library.anyEqual strict v us = .ok true := by
  induction us with
  | nil => cases hu
  | cons w us ih =>
    obtain ⟨⟨same, hsame⟩, hus⟩ := List.forall_mem_cons.mp hall
    rw [Library.anyEqual, hsame]
    cases same with
    | true => rfl
    | false =>
      rcases List.mem_cons.mp hu with rfl | hu
      · cases hsame.symm.trans h
      · exact ih hus hu

/-- Exact elements of a list equal what has come through for their keys. -/
theorem exists_equal_newcomer {xs : List Value} (hexact : ∀ x ∈ xs, x.Exact ∧ x.HasKey) {x : Value}
    (hx : x ∈ xs) : ∃ u ∈ newcomers stableKey [] xs, u.equals false x = .ok true := by
  have hkey := (mem_labels_newcomers List.not_mem_nil).mpr (List.mem_map_of_mem (f := stableKey) hx)
  obtain ⟨u, hu, hsame⟩ := List.mem_map.mp hkey
  obtain ⟨hux, hukey⟩ := hexact u (newcomers_subset hu)
  obtain ⟨hx, hkey⟩ := hexact x hx
  refine ⟨u, hu, equals_of_keyChars hux hx hukey hkey ?_⟩
  rw [hukey.stableKey_eq, hkey.stableKey_eq] at hsame
  exact String.ofList_injective (Except.ok.inj hsame)

theorem apply_unique_list (s : Scope) {xs : List Value}
    (hkeyed : ∀ x ∈ xs, ∃ k, x.stableKey = .ok k) :
    Library.MethodOp.apply .unique s (.list xs) [] = .ok (.list (newcomers stableKey [] xs)) := by
  have hdistinct := Failure.ofFault_eq_ok.mpr (distinct_eq hkeyed [])
  simp only [Library.MethodOp.apply, Library.bare, List.isEmpty_nil, if_true]
  exact bind_eq_ok.mpr ⟨xs, rfl, bind_eq_ok.mpr ⟨_, hdistinct, rfl⟩⟩

/-- Of a list whose elements have structural keys, `unique` gives the elements at the places where a
key stands for the first time.  No two of these have the same key, going through them again leaves
them as they are, and they are as many as the summary counts.  If the elements are integral and
nothing is strict, each of them is found in what `unique` gives. -/
theorem unique_firsts (s : Scope) {xs : List Value} (hkeyed : ∀ x ∈ xs, ∃ k, x.stableKey = .ok k) :
    ∃ us, Library.MethodOp.apply .unique s (.list xs) [] = .ok (.list us) ∧
      us = (firstPlaces stableKey xs).map (xs[·]) ∧
      us.Pairwise (fun u v => u.stableKey ≠ v.stableKey) ∧
      Library.MethodOp.apply .unique s (.list us) [] = .ok (.list us) ∧
      Summary.unique.apply xs = .ok (.int us.length) ∧
      (s.strict = false → (∀ x ∈ xs, x.Integral) →
        ∀ x ∈ xs, Library.MethodOp.apply .listContains s (.list us) [x] = .ok (.bool true)) := by
  have hnodup : ((newcomers stableKey [] xs).map stableKey).Nodup := nodup_newcomers [] xs
  have hkeyed' : ∀ u ∈ newcomers stableKey [] xs, ∃ k, u.stableKey = .ok k :=
    fun u hu => hkeyed u (newcomers_subset hu)
  refine ⟨newcomers stableKey [] xs, apply_unique_list s hkeyed, newcomers_nil_eq xs,
    List.pairwise_map.mp hnodup, ?_, ?_, fun hlenient hintegral x hx => ?_⟩
  · rw [apply_unique_list s hkeyed', newcomers_eq_self hnodup fun _ _ => List.not_mem_nil]
  · exact apply_unique hkeyed hnodup fun k => mem_labels_newcomers List.not_mem_nil
  · have hexact : ∀ x ∈ xs, x.Exact ∧ x.HasKey := by
      intro x hx
      obtain ⟨k, hk⟩ := hkeyed x hx
      obtain ⟨cs, hcs, -⟩ := map_eq_ok.mp hk
      exact ⟨(hintegral x hx).exact hcs, hasKey_of_stableChars x hcs⟩
    obtain ⟨u, hu, hequal⟩ := exists_equal_newcomer hexact hx
    have hany := anyEqual_of_mem (fun u hu =>
      have hux := hexact u (newcomers_subset hu)
      have hxx := hexact x hx
      exists_equals u x hux.1 hxx.1 hux.2 hxx.2) hu hequal
    simp only [Library.MethodOp.apply, Library.optional, hlenient]
    exact bind_eq_ok.mpr ⟨_, rfl, bind_eq_ok.mpr ⟨true, hany, rfl⟩⟩

/-- A path written in two ways, and something else between them. -/
def linkTwice : List Value :=
  [.link "./a" .null, .int 1, .link "a" (.string "shown")]

/-- A scope without strictness. -/
def lenientScope : Scope where
  strict := false
  now := default
  library := .builtin

theorem unique_firsts_links :
    Library.MethodOp.apply .unique lenientScope (.list linkTwice) [] =
        .ok (.list [.link "./a" .null, .int 1]) ∧
      Library.MethodOp.apply .listContains lenientScope (.list [.link "./a" .null, .int 1])
        [.link "a" (.string "shown")] = .ok (.bool true) := by
  have hkeyed : ∀ x ∈ linkTwice, ∃ k, x.stableKey = .ok k :=
    List.forall_mem_cons.mpr ⟨⟨_, rfl⟩,
      List.forall_mem_cons.mpr ⟨⟨_, rfl⟩, List.forall_mem_singleton.mpr ⟨_, rfl⟩⟩⟩
  have hintegral : ∀ x ∈ linkTwice, x.Integral :=
    List.forall_mem_cons.mpr ⟨.shown rfl nofun nofun,
      List.forall_mem_cons.mpr ⟨.int 1, List.forall_mem_singleton.mpr (.shown rfl nofun nofun)⟩⟩
  obtain ⟨us, hunique, hplaces, -, -, -, hcontains⟩ := unique_firsts lenientScope hkeyed
  have hfirsts : firstPlaces stableKey linkTwice = [⟨0, by decide⟩, ⟨1, by decide⟩] := by
    decide +kernel
  rw [hfirsts] at hplaces
  subst hplaces
  exact ⟨hunique, hcontains rfl hintegral _ (List.mem_of_getElem? (i := 2) rfl)⟩

end Value

end NoteQuery
