/-
The span of moments.

The first and the last of moments are chosen by their epoch milliseconds, and the span between them
by the instants themselves.  Milliseconds do not fall as the instants grow, so where the instants
have an order, both choices have the least and the largest milliseconds (`Summary.range_apply_eq`),
which do not depend on the order of the moments.  Instants with and without a zone have no order:
there is a first moment and a last one then, but no span.
-/
import NoteQuery.Proofs.EpochMillis
import NoteQuery.Proofs.Summaries
import Mathlib.Data.List.Perm.Basic

namespace NoteQuery.Summary

variable {values values' : List Value} {t u : Timestamp} {ts ts' : List Timestamp} {m n : Int}

/-! ## Moments in any order -/

theorem mapM_moment?_eq_some :
    values.mapM Value.moment? = some ts ↔
      List.Forall₂ (fun v t => v.moment? = some t) values ts := by
  induction values generalizing ts with
  | nil => exact ⟨fun h => Option.some.inj h ▸ .nil, fun h => by cases h; rfl⟩
  | cons v vs ih =>
    rw [List.mapM_cons]
    constructor
    · intro h
      obtain ⟨t, ht, h⟩ := Option.bind_eq_some_iff.mp h
      obtain ⟨us, hus, h⟩ := Option.bind_eq_some_iff.mp h
      cases h
      exact .cons ht (ih.mp hus)
    · rintro (_ | ⟨ht, hts⟩)
      exact Option.bind_eq_some_iff.mpr ⟨_, ht, Option.bind_eq_some_iff.mpr ⟨_, ih.mpr hts, rfl⟩⟩

theorem moments?_eq_some_iff : moments? values = some ts ↔
    values ≠ [] ∧ List.Forall₂ (fun v t => v.moment? = some t) values ts := by
  rw [moments?, ← mapM_moment?_eq_some]
  cases values with
  | nil => exact iff_of_false (Option.some_ne_none ts).symm fun h => h.1 rfl
  | cons v vs => exact ⟨fun h => ⟨List.cons_ne_nil v vs, h⟩, And.right⟩

/-- Values in another order are moments in another order. -/
theorem exists_moments?_of_perm (hperm : values'.Perm values) (hts : moments? values = some ts) :
    ∃ ts', moments? values' = some ts' ∧ ts'.Perm ts := by
  obtain ⟨hne, hmoments⟩ := moments?_eq_some_iff.mp hts
  obtain ⟨ts', hmoments', hts'⟩ := List.perm_comp_forall₂ hperm hmoments
  refine ⟨ts', moments?_eq_some_iff.mpr ⟨?_, hmoments'⟩, hts'⟩
  rintro rfl
  exact hne (List.nil_perm.mp hperm)

theorem mixed_iff_of_perm (h : ts'.Perm ts) : Mixed ts' ↔ Mixed ts := by
  simp only [Mixed, h.mem_iff]

/-! ## The least and the largest milliseconds -/

/-- The epoch milliseconds of the moments. -/
def millisOf (ts : List Timestamp) : Set Int :=
  {n | ∃ t ∈ ts, t.epochMillis = .ok n}

theorem millisOf_perm (h : ts'.Perm ts) : millisOf ts' = millisOf ts := by
  simp only [millisOf, h.mem_iff]

section Choices

variable {keyBefore : Int → Int → Bool} {f : Int → Int}

/-- The step with which a moment is chosen takes one whose key comes before, and no other. -/
theorem exists_foldl_eq_some (hkey : ∀ i j, keyBefore i j ↔ f i < f j)
    (k : Int × Timestamp) (ks : List (Int × Timestamp)) :
    ∃ c ∈ k :: ks, ks.foldl (fun best k =>
        match best with
        | none => some k
        | some b => if keyBefore k.1 b.1 then some k else best) (some k) = some c ∧
      ∀ b ∈ k :: ks, f c.1 ≤ f b.1 := by
  induction ks generalizing k with
  | nil => exact ⟨k, List.mem_cons_self, rfl, List.forall_mem_singleton.mpr le_rfl⟩
  | cons b ks ih =>
    rw [List.foldl_cons]
    dsimp only
    split
    · next hbefore =>
      obtain ⟨c, hc, hfold, hleast⟩ := ih b
      refine ⟨c, List.mem_cons_of_mem k hc, hfold, List.forall_mem_cons.mpr ⟨?_, hleast⟩⟩
      exact (hleast b List.mem_cons_self).trans ((hkey _ _).mp hbefore).le
    · next hbefore =>
      obtain ⟨c, hc, hfold, hleast⟩ := ih k
      obtain ⟨hck, hleast⟩ := List.forall_mem_cons.mp hleast
      refine ⟨c, ((List.sublist_cons_self b ks).cons_cons k).mem hc, hfold, ?_⟩
      refine List.forall_mem_cons.mpr ⟨hck, List.forall_mem_cons.mpr ⟨?_, hleast⟩⟩
      exact hck.trans (not_lt.mp fun hlt => hbefore ((hkey _ _).mpr hlt))

/-- Among moments that have milliseconds, one is chosen whose key none comes before. -/
theorem exists_momentBy_eq_ok (hkey : ∀ i j, keyBefore i j ↔ f i < f j)
    (hts : moments? values = some ts) (hdefined : ∀ t ∈ ts, ∃ n, t.epochMillis = .ok n) :
    ∃ t m, momentBy keyBefore values = .ok (.timestamp t) ∧ t.epochMillis = .ok m ∧
      m ∈ millisOf ts ∧ ∀ n ∈ millisOf ts, f m ≤ f n := by
  choose! millis hmillis using hdefined
  have hkeyed : ts.mapM (fun t => do return (← t.epochMillis, t)) =
      .ok (ts.map fun t => (millis t, t)) := by
    refine mapM_eq_ok.mpr (List.forall₂_map_right_iff.mpr (List.forall₂_same.mpr fun t ht => ?_))
    rw [hmillis t ht]
    rfl
  cases ts with
  | nil => exact absurd hts (moments?_ne_nil values)
  | cons t ts =>
    obtain ⟨c, hc, hfold, hleast⟩ :=
      exists_foldl_eq_some hkey (millis t, t) (ts.map fun t => (millis t, t))
    rw [← List.map_cons (f := fun t => (millis t, t))] at hc hleast
    obtain ⟨u, hu, rfl⟩ := List.mem_map.mp hc
    have hchosen : leastBy keyBefore (t :: ts) = .ok (some u) := by
      rw [leastBy, hkeyed]
      exact congrArg (fun chosen => Except.ok (chosen.map (·.2))) hfold
    refine ⟨u, millis u, ?_, hmillis u hu, ⟨u, hu, hmillis u hu⟩, ?_⟩
    · rw [momentBy, hts]
      dsimp only
      rw [hchosen]
      rfl
    · rintro n ⟨w, hw, hn⟩
      rw [hmillis w hw] at hn
      cases hn
      exact hleast _ (List.mem_map_of_mem hw)

end Choices

section Ends

variable (hts : moments? values = some ts) (hdefined : ∀ t ∈ ts, ∃ n, t.epochMillis = .ok n)
include hts hdefined

theorem exists_earliest_eq_ok : ∃ t m, earliest.apply values = .ok (.timestamp t) ∧
    t.epochMillis = .ok m ∧ IsLeast (millisOf ts) m := by
  obtain ⟨t, m, ht, hm, hmem, hleast⟩ :=
    exists_momentBy_eq_ok (f := id) (fun i j => decide_eq_true_iff) hts hdefined
  exact ⟨t, m, ht, hm, hmem, hleast⟩

theorem exists_latest_eq_ok : ∃ t n, latest.apply values = .ok (.timestamp t) ∧
    t.epochMillis = .ok n ∧ IsGreatest (millisOf ts) n := by
  have hkey (i j : Int) : decide (j < i) = true ↔ -i < -j := by
    rw [decide_eq_true_iff, Int.neg_lt_neg_iff]
  obtain ⟨t, n, ht, hn, hmem, hgreatest⟩ := exists_momentBy_eq_ok hkey hts hdefined
  exact ⟨t, n, ht, hn, hmem, fun m hm => Int.neg_le_neg_iff.mp (hgreatest m hm)⟩

/-- Where the instants have an order, their ends have the ends of the milliseconds. -/
theorem range_apply_eq (hmixed : ¬ Mixed ts) (hm : IsLeast (millisOf ts) m)
    (hn : IsGreatest (millisOf ts) n) : range.apply values = .ok (.int (n - m)) := by
  cases ts with
  | nil => exact absurd hts (moments?_ne_nil values)
  | cons t ts =>
    obtain ⟨last, hlast, hlastEq, hlatest⟩ := exists_firstBy_eq_ok isAfter_compares hmixed
    obtain ⟨first, hfirst, hfirstEq, hearliest⟩ := exists_firstBy_eq_ok isBefore_compares hmixed
    have hzone {u w : Timestamp} (hu : u ∈ t :: ts) (hw : w ∈ t :: ts) :
        u.zone.isSome = w.zone.isSome := by
      unfold Mixed at hmixed
      push Not at hmixed
      exact hmixed u hu w hw
    obtain ⟨j, hj⟩ := hdefined last hlast
    obtain ⟨i, hi⟩ := hdefined first hfirst
    have hleast : IsLeast (millisOf (t :: ts)) i := by
      refine ⟨⟨first, hfirst, hi⟩, ?_⟩
      rintro k ⟨u, hu, hk⟩
      exact Timestamp.epochMillis_mono (hzone hfirst hu) (hearliest u hu) hi hk
    have hgreatest : IsGreatest (millisOf (t :: ts)) j := by
      refine ⟨⟨last, hlast, hj⟩, ?_⟩
      rintro k ⟨u, hu, hk⟩
      exact Timestamp.epochMillis_mono (hzone hu hlast) (Int.neg_le_neg_iff.mp (hlatest u hu)) hk hj
    rw [apply, hts]
    dsimp only
    rw [spanOf, hlastEq, hfirstEq]
    show (do return Value.int ((← last.epochMillis) - (← first.epochMillis)) :
      Except Fault Value) = _
    rw [hi, hj, hleast.unique hm, hgreatest.unique hn]
    rfl

end Ends

theorem range_apply_of_mixed (hts : moments? values = some ts) (hmixed : Mixed ts) :
    range.apply values = .error .zonesMixed := by
  cases ts with
  | nil => exact absurd hts (moments?_ne_nil values)
  | cons t ts =>
    rw [apply, hts]
    exact spanOf_eq_error_iff.mpr (.inl ⟨hmixed, rfl⟩)

/-- Of moments that have epoch milliseconds there are an earliest and a latest one, and the range is
the milliseconds from one to the other, in whatever order the values stand, as long as all of them
have a zone or none has.  Where some have a zone and others have none, it fails. -/
theorem range_spans (hts : moments? values = some ts)
    (hdefined : ∀ t ∈ ts, ∃ n, t.epochMillis = .ok n) :
    ∃ first last m n, earliest.apply values = .ok (.timestamp first) ∧
      latest.apply values = .ok (.timestamp last) ∧ first.epochMillis = .ok m ∧
      last.epochMillis = .ok n ∧ 0 ≤ n - m ∧
      (¬ Mixed ts → ∀ values', values'.Perm values →
        range.apply values' = .ok (.int (n - m))) ∧
      (Mixed ts → ∀ values', values'.Perm values → range.apply values' = .error .zonesMixed) := by
  obtain ⟨first, m, hfirst, hm, hleast⟩ := exists_earliest_eq_ok hts hdefined
  obtain ⟨last, n, hlast, hn, hgreatest⟩ := exists_latest_eq_ok hts hdefined
  refine ⟨first, last, m, n, hfirst, hlast, hm, hn, ?_, fun hmixed values' hperm => ?_,
    fun hmixed values' hperm => ?_⟩
  · exact Int.sub_nonneg_of_le (hgreatest.2 hleast.1)
  · obtain ⟨ts', hts', hperm'⟩ := exists_moments?_of_perm hperm hts
    refine range_apply_eq hts' (fun t ht => hdefined t (hperm'.mem_iff.mp ht)) ?_ ?_ ?_
    · rwa [mixed_iff_of_perm hperm']
    · rwa [millisOf_perm hperm']
    · rwa [millisOf_perm hperm']
  · obtain ⟨ts', hts', hperm'⟩ := exists_moments?_of_perm hperm hts
    exact range_apply_of_mixed hts' ((mixed_iff_of_perm hperm').mpr hmixed)

/-- The first day of 2023. -/
def newYear : Date :=
  ⟨2023, 1, 1, by decide⟩

/-- The day after it. -/
def secondOfJanuary : Date :=
  ⟨2023, 1, 2, by decide⟩

/-- A bare day and the midnight before it, without a zone. -/
def bareDays : List Value :=
  [.date secondOfJanuary, .timestamp (.midnight newYear)]

/-- The range is a day, also the other way round. -/
theorem range_spans_bareDays :
    ∃ first last m n, earliest.apply bareDays = .ok (.timestamp first) ∧
      latest.apply bareDays = .ok (.timestamp last) ∧ first.epochMillis = .ok m ∧
      last.epochMillis = .ok n ∧ 0 ≤ n - m ∧ range.apply bareDays = .ok (.int (n - m)) ∧
      range.apply bareDays.reverse = .ok (.int (n - m)) := by
  have hfirst : (Timestamp.midnight newYear).epochMillis = .ok 1672531200000 := by decide +kernel
  have hlast : (Timestamp.midnight secondOfJanuary).epochMillis = .ok 1672617600000 := by
    decide +kernel
  have hzones : ¬ Mixed [Timestamp.midnight secondOfJanuary, Timestamp.midnight newYear] :=
    not_mixed_iff.mpr (List.forall_mem_singleton.mpr rfl)
  obtain ⟨first, last, m, n, hearliest, hlatest, hm, hn, hle, hrange, -⟩ :=
    @range_spans bareDays _ rfl
      (List.forall_mem_cons.mpr ⟨⟨_, hlast⟩, List.forall_mem_singleton.mpr ⟨_, hfirst⟩⟩)
  exact ⟨first, last, m, n, hearliest, hlatest, hm, hn, hle, hrange hzones _ (List.Perm.refl _),
    hrange hzones _ (List.reverse_perm _)⟩

/-- Midnight without a zone, and a day later in UTC. -/
def aroundMidnight : List Value := [
  .timestamp (.midnight newYear),
  .timestamp { Timestamp.midnight secondOfJanuary with zone := some .utc }]

/-- The earliest and the latest moment are a day apart, but there is no range. -/
theorem range_aroundMidnight : ∃ first last m n,
    earliest.apply aroundMidnight = .ok (.timestamp first) ∧
      latest.apply aroundMidnight = .ok (.timestamp last) ∧ first.epochMillis = .ok m ∧
      last.epochMillis = .ok n ∧ n - m = 86400000 ∧
      range.apply aroundMidnight = .error .zonesMixed := by
  obtain ⟨t, ht⟩ : ∃ t, t = Timestamp.midnight newYear := ⟨_, rfl⟩
  obtain ⟨u, hu⟩ : ∃ u : Timestamp,
    u = { Timestamp.midnight secondOfJanuary with zone := some .utc } := ⟨_, rfl⟩
  have htmillis : t.epochMillis = .ok 1672531200000 := by
    rw [ht]
    decide +kernel
  have humillis : u.epochMillis = .ok 1672617600000 := by
    rw [hu]
    decide +kernel
  have hmoments : moments? aroundMidnight = some [t, u] := by
    rw [ht, hu]
    rfl
  have hmillis : millisOf [t, u] = {1672531200000, 1672617600000} := by
    ext n
    simp [millisOf, htmillis, humillis, eq_comm]
  have hdefined : ∀ w ∈ [t, u], ∃ n, w.epochMillis = .ok n :=
    List.forall_mem_cons.mpr ⟨⟨_, htmillis⟩, List.forall_mem_singleton.mpr ⟨_, humillis⟩⟩
  obtain ⟨first, m, hfirst, hm, hleast⟩ := exists_earliest_eq_ok hmoments hdefined
  obtain ⟨last, n, hlast, hn, hgreatest⟩ := exists_latest_eq_ok hmoments hdefined
  rw [hmillis] at hleast hgreatest
  obtain rfl := hleast.unique isLeast_pair
  obtain rfl := hgreatest.unique isGreatest_pair
  refine ⟨first, last, _, _, hfirst, hlast, hm, hn, by decide, range_apply_of_mixed hmoments ?_⟩
  have hzones : ¬ t.zone.isSome = u.zone.isSome := by
    rw [ht, hu]
    decide
  exact ⟨t, List.mem_cons_self, u, List.mem_cons_of_mem t List.mem_cons_self, hzones⟩

end NoteQuery.Summary
