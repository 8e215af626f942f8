/-
What cannot be compared.

Comparison and equality go by numbers where moments, durations or numbers take part, and equality of
mappings goes by structural keys; values of unlike kinds are compared as they are displayed.  Both
fail exactly where such a number, key or display form is missing (`compare_eq_fault_iff`,
`equals_eq_fault_iff`).  Everything else is compared and equal or not, whatever the values are.
-/
import NoteQuery.Proofs.Extremes
import NoteQuery.Proofs.ValueOrder

namespace NoteQuery.Value

/-- One of two values has no number, the first of them that has none. -/
inductive NumbersFail (strict : Bool) (v w : Value) : Fault → Prop
  | left {f : Fault} : v.Uncountable strict f → NumbersFail strict v w f
  | right {m : Number} {f : Fault} : v.toNumber strict = .ok m → w.Uncountable strict f →
      NumbersFail strict v w f

theorem NumbersFail.extreme {strict : Bool} {v w : Value} {f : Fault}
    (h : NumbersFail strict v w f) : f.Extreme := by
  cases h with
  | left h => exact h.extreme
  | right _ h => exact h.extreme

section Comparison

variable {strict : Bool} {v w : Value} {f : Fault}

/-- A computation with the numbers of two values fails with them, or by itself. -/
theorem bind_toNumber_eq_fault {α : Type} {g : Number → Number → Except Failure α} :
    (do
      let m ← v.toNumber strict
      let n ← w.toNumber strict
      g m n) = .error (.fault f) ↔
      NumbersFail strict v w f ∨
        ∃ m n, v.toNumber strict = .ok m ∧ w.toNumber strict = .ok n ∧
          g m n = .error (.fault f) := by
  simp only [bind_eq_error, toNumber_eq_fault_iff]
  constructor
  · rintro (hv | ⟨m, hm, hw | ⟨n, hn, h⟩⟩)
    · exact .inl (.left hv)
    · exact .inl (.right hm hw)
    · exact .inr ⟨m, n, hm, hn, h⟩
  · rintro ((hv | ⟨hm, hw⟩) | ⟨m, n, hm, hn, h⟩)
    · exact .inl hv
    · exact .inr ⟨_, hm, .inl hw⟩
    · exact .inr ⟨m, hm, .inr ⟨n, hn, h⟩⟩

/-- The same for numbers that are computed below evaluation. -/
theorem bind_numbers_eq_fault {α β : Type} {x y : Except Fault α} {number : α → Number}
    {g : α → α → β} (hv : v.toNumber strict = Failure.ofFault (x.map number))
    (hw : w.toNumber strict = Failure.ofFault (y.map number)) :
    Failure.ofFault (do return g (← x) (← y)) = .error (.fault f) ↔ NumbersFail strict v w f := by
  have hleft : v.Uncountable strict f ↔ x = .error f := by
    rw [← @toNumber_eq_fault_iff strict v f, hv, Failure.ofFault_eq_fault, map_eq_error]
  have hright : w.Uncountable strict f ↔ y = .error f := by
    rw [← @toNumber_eq_fault_iff strict w f, hw, Failure.ofFault_eq_fault, map_eq_error]
  rw [Failure.ofFault_eq_fault, bind_eq_error]
  constructor
  · rintro (h | ⟨a, ha, h⟩)
    · exact .left (hleft.mpr h)
    · rcases bind_eq_error.mp h with h | ⟨b, -, h⟩
      · refine .right (m := number a) ?_ (hright.mpr h)
        rw [hv, ha]
        rfl
      · cases h
  · rintro (h | ⟨hm, h⟩)
    · exact .inl (hleft.mp h)
    · rw [hv, Failure.ofFault_eq_ok] at hm
      obtain ⟨a, ha, -⟩ := map_eq_ok.mp hm
      exact .inr ⟨a, ha, bind_eq_error.mpr (.inl (hright.mp h))⟩

/-! ## Order -/

/-- The order of the values is that of their numbers: both are moments, or one is a duration. -/
def OrderedByNumber (v w : Value) : Prop :=
  (v.moment? ≠ none ∧ w.moment? ≠ none) ∨ v.kind = .duration ∨ w.kind = .duration

/-- The values are compared as they are shown. -/
structure ComparedAsShown (v w : Value) : Prop where
  noDuration : v.kind ≠ .duration ∧ w.kind ≠ .duration
  noDates : ¬ (v.kind = .date ∧ w.kind = .date)
  noNumbers : ¬ (v.kind = .number ∧ w.kind = .number)

/-- One of two values cannot be displayed, the first of them that cannot. -/
def DisplaysFail (v w : Value) (f : Fault) : Prop :=
  v.display = .error f ∨ ∃ text, v.display = .ok text ∧ w.display = .error f

theorem DisplaysFail.extreme (h : DisplaysFail v w f) : f.Extreme := by
  rcases h with h | ⟨_, -, h⟩
  · exact extreme_of_display h
  · exact extreme_of_display h

theorem bind_display_eq_error {α : Type} {g : String → String → α} :
    (do return g (← v.display) (← w.display)) = (.error f : Except Fault α) ↔
      DisplaysFail v w f := by
  rw [bind_eq_error, DisplaysFail]
  exact or_congr_right (exists_congr fun text => and_congr_right fun _ => bind_return_eq_error)

/-- The values have an order by their numbers, and one has no number, or the numbers have no
difference; or they are compared as shown, and one is not displayed. -/
inductive Incomparable (strict : Bool) (v w : Value) : Fault → Prop
  | numbers {f : Fault} : OrderedByNumber v w → NumbersFail strict v w f → Incomparable strict v w f
  | difference {m n : Number} : OrderedByNumber v w → v.toNumber strict = .ok m →
      w.toNumber strict = .ok n → m.Clash n → Incomparable strict v w .integerTooLarge
  | undisplayed {f : Fault} : ComparedAsShown v w → DisplaysFail v w f → Incomparable strict v w f

theorem Incomparable.extreme (h : Incomparable strict v w f) : f.Extreme := by
  cases h with
  | numbers _ h => exact h.extreme
  | difference _ _ _ _ => exact .tooLarge
  | undisplayed _ h => exact h.extreme

theorem kind_of_moment {t : Timestamp} (h : v.moment? = some t) : v.kind = .date := by
  cases v with
  | date d => rfl
  | timestamp u => rfl
  | _ => cases h

theorem exists_moment_of_kind (h : v.kind = .date) : ∃ t, v.moment? = some t := by
  cases v with
  | date d => exact ⟨_, rfl⟩
  | timestamp t => exact ⟨_, rfl⟩
  | _ => cases h

theorem moment_ne_none_iff : v.moment? ≠ none ↔ v.kind = .date := by
  rw [Option.ne_none_iff_exists']
  exact ⟨fun ⟨_, h⟩ => kind_of_moment h, exists_moment_of_kind⟩

/-- Values are compared by their numbers, one number with the other, or as they are shown. -/
theorem ComparedAsShown.not_ordered (h : ComparedAsShown v w) : ¬ OrderedByNumber v w := by
  rintro (⟨hv, hw⟩ | hv | hw)
  · exact h.noDates ⟨moment_ne_none_iff.mp hv, moment_ne_none_iff.mp hw⟩
  · exact h.noDuration.1 hv
  · exact h.noDuration.2 hw

theorem orderAsWritten_eq_error_iff : orderAsWritten v w = .error f ↔
    ¬ (v.kind = .number ∧ w.kind = .number) ∧ DisplaysFail v w f := by
  unfold orderAsWritten
  split
  · exact iff_of_false nofun fun ⟨_, h⟩ => h.elim nofun fun ⟨_, _, h⟩ => nomatch h
  · exact iff_of_false nofun fun ⟨h, _⟩ => h ⟨rfl, rfl⟩
  · exact iff_of_false nofun fun ⟨_, h⟩ => h.elim nofun fun ⟨_, _, h⟩ => nomatch h
  · next hnumbers _ =>
    have hkinds : ¬ (v.kind = .number ∧ w.kind = .number) := by
      rintro ⟨hv, hw⟩
      cases v <;> cases hv
      cases w <;> cases hw
      exact hnumbers _ _ rfl rfl
    rw [bind_display_eq_error, and_iff_right hkinds]

theorem compare_eq_fault_iff :
    compare strict v w = .error (.fault f) ↔ Incomparable strict v w f := by
  by_cases hmoments : v.moment? = none ∨ w.moment? = none
  · rw [compare_of_no_moment strict hmoments]
    by_cases hd : v.kind = .duration ∨ w.kind = .duration
    · rw [if_pos hd, bind_toNumber_eq_fault]
      constructor
      · rintro (h | ⟨m, n, hm, hn, h⟩)
        · exact .numbers (.inr hd) h
        · rcases bind_eq_error.mp h with h | ⟨d, -, h⟩
          · obtain ⟨hclash, rfl⟩ := Number.combine_eq_error_iff.mp (Failure.ofFault_eq_fault.mp h)
            exact .difference (.inr hd) hm hn hclash
          · cases h
      · rintro (⟨-, h⟩ | ⟨-, hm, hn, hclash⟩ | ⟨hshown, -⟩)
        · exact .inl h
        · refine .inr ⟨_, _, hm, hn, bind_eq_error.mpr (.inl ?_)⟩
          exact Failure.ofFault_eq_fault.mpr (Number.combine_eq_error_iff.mpr ⟨hclash, rfl⟩)
        · exact absurd (.inr hd) hshown.not_ordered
    · rw [if_neg hd, Failure.ofFault_eq_fault, orderAsWritten_eq_error_iff]
      have hdates : ¬ (v.kind = .date ∧ w.kind = .date) := fun ⟨hv, hw⟩ =>
        hmoments.elim (moment_ne_none_iff.mpr hv) (moment_ne_none_iff.mpr hw)
      have hnot : ¬ OrderedByNumber v w := by
        rintro (⟨hv, hw⟩ | h)
        · exact hmoments.elim hv hw
        · exact hd h
      constructor
      · exact fun ⟨hnumbers, h⟩ => .undisplayed ⟨not_or.mp hd, hdates, hnumbers⟩ h
      · rintro (⟨h, -⟩ | ⟨h, -⟩ | ⟨hshown, h⟩)
        · exact absurd h hnot
        · exact absurd h hnot
        · exact ⟨hshown.noNumbers, h⟩
  · obtain ⟨hv, hw⟩ := not_or.mp hmoments
    obtain ⟨t, ht⟩ := Option.ne_none_iff_exists'.mp hv
    obtain ⟨u, hu⟩ := Option.ne_none_iff_exists'.mp hw
    have hordered : OrderedByNumber v w := .inl ⟨hv, hw⟩
    simp only [compare, ht, hu]
    rw [bind_numbers_eq_fault (@toNumber_moment strict v t ht) (toNumber_moment hu)]
    constructor
    · exact .numbers hordered
    · rintro (⟨-, h⟩ | ⟨-, hm, hn, hclash⟩ | ⟨hshown, -⟩)
      · exact h
      · -- Epoch milliseconds are integers, which have a difference whatever their size.
        rw [toNumber_moment ht, Failure.ofFault_eq_ok] at hm
        rw [toNumber_moment hu, Failure.ofFault_eq_ok] at hn
        obtain ⟨millis, -, rfl⟩ := map_eq_ok.mp hm
        obtain ⟨others, -, rfl⟩ := map_eq_ok.mp hn
        cases hclash
      · exact absurd hordered hshown.not_ordered

/-! ## Equality -/

/-- The values are equal by their numbers: both are moments or durations, or one is a number. -/
def EqualByNumber (v w : Value) : Prop :=
  (v.moment? ≠ none ∧ w.moment? ≠ none) ∨ (v.kind = .duration ∧ w.kind = .duration) ∨
    v.kind = .number ∨ w.kind = .number

/-- The values are equal by their numbers or by their structural keys, and one has none; or they are
lists with equal items up to a pair of such values. -/
inductive Unequatable (strict : Bool) : Value → Value → Fault → Prop
  | numbers {v w : Value} {f : Fault} : EqualByNumber v w → NumbersFail strict v w f →
      Unequatable strict v w f
  | leftKey {v w : Value} {f : Fault} : v.kind = .object → w.kind = .object → v.Keyless f →
      Unequatable strict v w f
  | rightKey {v w : Value} {key : String} {f : Fault} : v.kind = .object → w.kind = .object →
      v.stableKey = .ok key → w.Keyless f → Unequatable strict v w f
  | items {before before' after after' : List Value} {v w : Value} {f : Fault} :
      List.Forall₂ (fun v w => v.equals strict w = .ok true) before before' →
      after.length = after'.length → Unequatable strict v w f →
        Unequatable strict (.list (before ++ v :: after)) (.list (before' ++ w :: after')) f

theorem Unequatable.extreme (h : Unequatable strict v w f) : f.Extreme := by
  induction h with
  | numbers _ h => exact h.extreme
  | leftKey _ _ h => exact h.extreme
  | rightKey _ _ _ h => exact h.extreme
  | items _ _ _ ih => exact ih

theorem kind_of_path {path : String} (h : v.comparablePath? = some path) :
    v.kind ≠ .duration ∧ v.kind ≠ .number ∧ v.kind ≠ .object := by
  cases v with
  | link path display => exact ⟨nofun, nofun, nofun⟩
  | file r => exact ⟨nofun, nofun, nofun⟩
  | string s => exact ⟨nofun, nofun, nofun⟩
  | _ => cases h

theorem toNumber_duration (d : Duration) :
    (duration d).toNumber strict = Failure.ofFault (d.toMillis.map id) := by
  rw [toNumber]
  cases d.toMillis with
  | error f => rfl
  | ok n => rfl

theorem eq_duration_of_kind (h : v.kind = .duration) : ∃ d, v = .duration d := by
  cases v with
  | duration d => exact ⟨d, rfl⟩
  | _ => cases h

theorem bind_stableKey_eq_fault :
    Failure.ofFault (do return (← v.stableKey) == (← w.stableKey)) = .error (.fault f) ↔
      v.Keyless f ∨ ∃ key, v.stableKey = .ok key ∧ w.Keyless f := by
  rw [Failure.ofFault_eq_fault, bind_eq_error, stableKey_eq_error_iff]
  refine or_congr_right (exists_congr fun key => and_congr_right fun _ => ?_)
  rw [bind_return_eq_error, stableKey_eq_error_iff]

/-- Values that are not both lists fail to be equal or not for want of a number or a key. -/
theorem equalParts_eq_fault_iff :
    equalParts strict v w = .error (.fault f) ↔
      (EqualByNumber v w ∧ NumbersFail strict v w f) ∨
        (v.kind = .object ∧ w.kind = .object ∧
          (v.Keyless f ∨ ∃ key, v.stableKey = .ok key ∧ w.Keyless f)) := by
  unfold equalParts
  split
  · next t u ht hu =>
    have hnumber : EqualByNumber v w := by
      refine .inl ⟨?_, ?_⟩
      · rw [ht]
        exact Option.some_ne_none t
      · rw [hu]
        exact Option.some_ne_none u
    rw [bind_numbers_eq_fault (@toNumber_moment strict v t ht) (toNumber_moment hu),
      kind_of_moment ht]
    simp only [hnumber, true_and, reduceCtorEq, false_and, or_false]
  · next hmoments =>
    have hnot : ¬ (v.moment? ≠ none ∧ w.moment? ≠ none) := by
      rintro ⟨hv, hw⟩
      obtain ⟨t, ht⟩ := Option.ne_none_iff_exists'.mp hv
      obtain ⟨u, hu⟩ := Option.ne_none_iff_exists'.mp hw
      exact hmoments t u ht hu
    unfold EqualByNumber
    simp only [hnot, false_or]
    split
    · next p q hp hq =>
      obtain ⟨hduration, hnumber, hobject⟩ := kind_of_path hp
      obtain ⟨-, hnumber', -⟩ := kind_of_path hq
      simp only [hduration, hnumber, hnumber', hobject, false_and, or_self, iff_false]
      intro h
      cases h
    · split
      · next _ _ d e _ =>
        rw [bind_numbers_eq_fault (@toNumber_duration strict d) (toNumber_duration e)]
        simp only [kind, true_and, reduceCtorEq, false_and, or_false]
      · next hdurations =>
        have hnot' : ¬ (v.kind = .duration ∧ w.kind = .duration) := by
          rintro ⟨hv, hw⟩
          obtain ⟨d, rfl⟩ := eq_duration_of_kind hv
          obtain ⟨e, rfl⟩ := eq_duration_of_kind hw
          exact hdurations d e rfl rfl
        simp only [hnot', false_or]
        split
        · next hkind =>
          have hobject : ¬ (v.kind = .object ∧ w.kind = .object) := by
            rintro ⟨hv, hw⟩
            rw [hv, hw] at hkind
            rcases hkind with h | h <;> cases h
          rw [bind_toNumber_eq_fault, ← and_assoc]
          simp only [hkind, hobject, true_and, false_and, or_false]
          refine or_iff_left ?_
          rintro ⟨_, _, _, _, h⟩
          cases h
        · next hkind =>
          simp only [hkind, false_and, false_or]
          split
          · next hobject =>
            rw [bind_stableKey_eq_fault]
            simp only [hobject, true_and]
          · next hobject =>
            rw [← and_assoc]
            simp only [hobject, false_and, iff_false]
            intro h
            cases h

/-- The items of lists of one length are compared up to the first pair that fails or is unequal. -/
theorem equalItems_eq_error_iff {vs ws : List Value} {failure : Failure}
    (hlength : vs.length = ws.length) :
    equalItems strict vs ws = .error failure ↔
      ∃ before v after before' w after', vs = before ++ v :: after ∧ ws = before' ++ w :: after' ∧
        List.Forall₂ (fun v w => v.equals strict w = .ok true) before before' ∧
        after.length = after'.length ∧ v.equals strict w = .error failure := by
  induction vs generalizing ws with
  | nil =>
    refine iff_of_false nofun ?_
    rintro ⟨before, v, after, -, -, -, h, -⟩
    exact absurd h.symm (List.append_ne_nil_of_right_ne_nil _ (List.cons_ne_nil v after))
  | cons v vs ih =>
    cases ws with
    | nil => cases hlength
    | cons w ws =>
      have hlength : vs.length = ws.length := Nat.succ.inj hlength
      rw [equalItems, bind_eq_error]
      constructor
      · rintro (h | ⟨same, hsame, h⟩)
        · exact ⟨[], v, vs, [], w, ws, rfl, rfl, .nil, hlength, h⟩
        · cases same with
          | false => cases h
          | true =>
            obtain ⟨before, x, after, before', y, after', rfl, rfl, hbefore, hafter, hxy⟩ :=
              (ih hlength).mp h
            exact ⟨v :: before, x, after, w :: before', y, after', rfl, rfl, .cons hsame hbefore,
              hafter, hxy⟩
      · rintro ⟨before, x, after, before', y, after', hvs, hws, hbefore, hafter, hxy⟩
        cases hbefore with
        | nil =>
          cases hvs
          cases hws
          exact .inl hxy
        | cons hsame hbefore =>
          cases hvs
          cases hws
          exact .inr ⟨true, hsame, (ih hlength).mpr ⟨_, _, _, _, _, _, rfl, rfl, hbefore, hafter,
            hxy⟩⟩

/-- The values are not both lists. -/
def NotLists (v w : Value) : Prop :=
  ∀ items others, v = .list items → w ≠ .list others

theorem equals_of_notLists (h : NotLists v w) : v.equals strict w = equalParts strict v w := by
  by_cases hlist : ∃ items, v = .list items
  · obtain ⟨items, rfl⟩ := hlist
    rw [equals]
    exact fun others => h items others rfl
  · rw [equals]
    exact fun items hv => hlist ⟨items, hv⟩

theorem Unequatable.equals_eq (h : Unequatable strict v w f) :
    v.equals strict w = .error (.fault f) := by
  induction h with
  | @numbers v w f hnumber h =>
    rw [equals_of_notLists, equalParts_eq_fault_iff]
    · exact .inl ⟨hnumber, h⟩
    · rintro items others rfl rfl
      rcases hnumber with ⟨h, -⟩ | ⟨h, -⟩ | h | h
      · exact h rfl
      · cases h
      · cases h
      · cases h
  | @leftKey v w f hv hw h =>
    rw [equals_of_notLists, equalParts_eq_fault_iff]
    · exact .inr ⟨hv, hw, .inl h⟩
    · rintro items others rfl
      cases hv
  | @rightKey v w key f hv hw hkey h =>
    rw [equals_of_notLists, equalParts_eq_fault_iff]
    · exact .inr ⟨hv, hw, .inr ⟨key, hkey, h⟩⟩
    · rintro items others rfl
      cases hv
  | items hbefore hafter _ ih =>
    have hlength := hbefore.length_eq
    rw [equals, if_pos (by simp only [List.length_append, List.length_cons, hlength, hafter])]
    refine (equalItems_eq_error_iff ?_).mpr
      ⟨_, _, _, _, _, _, rfl, rfl, hbefore, hafter, ih⟩
    simp only [List.length_append, List.length_cons, hlength, hafter]

theorem unequatable_of_equals (v w : Value) (h : v.equals strict w = .error (.fault f)) :
    Unequatable strict v w f := by
  by_cases hlists : NotLists v w
  · rw [equals_of_notLists hlists, equalParts_eq_fault_iff] at h
    rcases h with ⟨hnumber, h⟩ | ⟨hv, hw, h | ⟨key, hkey, h⟩⟩
    · exact .numbers hnumber h
    · exact .leftKey hv hw h
    · exact .rightKey hv hw hkey h
  · simp only [NotLists, ne_eq, not_forall, not_not, exists_prop] at hlists
    obtain ⟨items, others, rfl, rfl⟩ := hlists
    rw [equals] at h
    split at h
    · next hlength =>
      obtain ⟨before, x, after, before', y, after', hitems, rfl, hbefore, hafter, hxy⟩ :=
        (equalItems_eq_error_iff hlength).mp h
      have hlt : sizeOf x < sizeOf items :=
        List.sizeOf_lt_of_mem (hitems ▸ List.mem_append_right before List.mem_cons_self)
      have hparts := unequatable_of_equals x y hxy
      exact hitems ▸ .items hbefore hafter hparts
    · cases h
termination_by sizeOf v
decreasing_by
  subst_vars
  rw [list.sizeOf_spec]
  omega

/-- Equality fails exactly for values that have no numbers or keys to be equal by. -/
theorem equals_eq_fault_iff :
    v.equals strict w = .error (.fault f) ↔ Unequatable strict v w f :=
  ⟨unequatable_of_equals v w, Unequatable.equals_eq⟩

end Comparison

/-! ## Comparing without an error -/

/-- What is no number counts as none, unless evaluation is strict. -/
theorem failsOnly_toNumber (v : Value) : FailsOnly Failure.IsFault (v.toNumber false) := by
  cases v with
  | date d => exact failsOnly_ofFault _
  | timestamp t => exact failsOnly_ofFault _
  | duration d => exact failsOnly_ofFault _
  | string s =>
    rw [toNumber]
    split
    · exact failsOnly_ok _
    · exact failsOnly_ok _
  | _ => exact failsOnly_ok _

theorem failsOnly_compare (v w : Value) : FailsOnly Failure.IsFault (compare false v w) := by
  unfold compare
  split
  · exact failsOnly_ofFault _
  · split
    · refine failsOnly_bind v.failsOnly_toNumber fun m => ?_
      refine failsOnly_bind w.failsOnly_toNumber fun n => ?_
      exact failsOnly_bind (failsOnly_ofFault _) fun _ => failsOnly_ok _
    · split
      · exact failsOnly_ok _
      · exact failsOnly_ok _
      · exact failsOnly_ok _
      · exact failsOnly_ofFault _

/-- Two values have an order, or are incomparable. -/
theorem incomparable_of_compare {v w : Value} {failure : Failure}
    (h : compare false v w = .error failure) :
    ∃ f, failure = .fault f ∧ Incomparable false v w f := by
  obtain ⟨f, rfl⟩ := failsOnly_compare v w failure h
  exact ⟨f, rfl, compare_eq_fault_iff.mp h⟩

end NoteQuery.Value
