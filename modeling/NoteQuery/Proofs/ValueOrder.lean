/-
The order of values, from either side.

Comparing two values the other way round turns the answer round (`Value.compare_swap`), and fails
only where the comparison fails.  The only case with an argument in it is that of
durations, which are compared by the sign of a rounded difference: rounding treats the two signs
alike, so the differences taken both ways are negatives of one another, except that both of two
equal numbers give a zero of which neither side knows the sign.
-/
import NoteQuery.Proofs.Outcomes
import NoteQuery.Value.Order

namespace NoteQuery

/-! ## Negative binary numbers -/

namespace Binary64

theorem signed_not (s : Bool) (n : Nat) : signed (!s) n = -signed s n := by
  cases s with
  | false => simp [signed]
  | true => simp [signed]

theorem pack_not (s : Bool) (m : Nat) (e : Int) : pack (!s) m e = (pack s m e).neg := by
  unfold pack
  split
  split
  · rfl
  · rfl

theorem ofRatio_not (s : Bool) (num den : Nat) :
    ofRatio (!s) num den = (ofRatio s num den).neg := by
  unfold ofRatio
  split
  · rfl
  · exact pack_not s _ _

theorem ofDyadic_not (s : Bool) (m : Nat) (e : Int) :
    ofDyadic (!s) m e = (ofDyadic s m e).neg :=
  ofRatio_not s _ _

theorem compare?_swap (x y : Binary64) : y.compare? x = (x.compare? y).map Ordering.swap := by
  cases x with
  | nan => cases y <;> rfl
  | infinite s =>
    cases y with
    | nan => rfl
    | infinite t => exact congrArg some (Nat.compare_swap t.toNat s.toNat).symm
    | finite => cases s <;> rfl
  | finite s m d =>
    cases y with
    | nan => rfl
    | infinite t => cases t <;> rfl
    | finite t n e =>
      simp only [compare?, Option.map_some, Int.compare_swap, Int.min_comm e d]

end Binary64

namespace Number

theorem compare?_swap (x y : Number) : y.compare? x = (x.compare? y).map Ordering.swap := by
  cases x with
  | int m =>
    cases y with
    | int n => exact congrArg some (Int.compare_swap m n).symm
    | float y => rfl
  | float x =>
    cases y with
    | int n => simp [compare?, Option.map_map, Function.comp_def]
    | float y => exact Binary64.compare?_swap x y

theorem order_swap (x y : Number) : y.order x = (x.order y).swap := by
  unfold order
  rw [compare?_swap x y]
  cases x.compare? y <;> rfl

end Number

namespace Value

/-! ## Signs of differences -/

theorem compare_neg (a b : Int) : Ord.compare (-a) (-b) = Ord.compare b a := by
  simp only [Int.compare_eq_ite_lt, Int.neg_lt_neg_iff]

theorem signOf_finite (s : Bool) (m : Nat) (e : Int) (h : Binary64.Canonical m e) :
    signOf (.float (.finite s m e h)) =
      Ord.compare (Binary64.signed s (Binary64.onGrid m 1 (-e)).1) 0 := by
  rw [← Int.compare_swap, ← Int.zero_mul (Binary64.onGrid m 1 (-e)).2]
  rfl

theorem signOf_zero (s : Bool) : signOf (.float (Binary64.zero s)) = .eq := by
  have hzero : (Binary64.onGrid 0 1 (-(-1074))).1 = 0 := by
    rw [Binary64.onGrid]
    rfl
  rw [Binary64.zero, signOf_finite, hzero]
  cases s <;> rfl

theorem signOf_neg (x : Binary64) : signOf (.float x.neg) = (signOf (.float x)).swap := by
  cases x with
  | nan => rfl
  | infinite s => cases s <;> rfl
  | finite s m e h =>
    show signOf (.float (.finite (!s) m e h)) = _
    rw [signOf_finite, signOf_finite, Binary64.signed_not, Int.compare_swap, ← compare_neg,
      Int.neg_neg, Int.neg_zero]

/-- Rounded or not, the difference of two binary numbers has the opposite sign of the one taken
the other way round. -/
theorem signOf_sub (x y : Binary64) :
    signOf (.float (y.sub x)) = (signOf (.float (x.sub y))).swap := by
  cases x with
  | nan => cases y <;> rfl
  | infinite s =>
    cases y with
    | nan => rfl
    | infinite t => cases s <;> cases t <;> rfl
    | finite t n e => cases s <;> rfl
  | finite s m d =>
    cases y with
    | nan => rfl
    | infinite t => cases t <;> rfl
    | finite t n e =>
      simp only [Binary64.sub, Binary64.neg, Binary64.withSign, Binary64.negative, Binary64.add,
        Binary64.signed_not, Int.min_comm e d]
      generalize Binary64.signed s _ = a
      generalize Binary64.signed t _ = b
      by_cases hab : a = b
      · subst hab
        rw [Int.add_right_neg, if_pos rfl, if_pos rfl, signOf_zero, signOf_zero]
        rfl
      · have hsign : decide (b + -a < 0) = !decide (a + -b < 0) := by
          rw [← decide_not, decide_eq_decide]
          omega
        have habs : (b + -a).natAbs = (a + -b).natAbs := by omega
        rw [if_neg (by omega), if_neg (by omega), hsign, habs, Binary64.ofDyadic_not, signOf_neg]

/-- Numbers that can be subtracted can be subtracted the other way round. -/
theorem sub_swap {m n d : Number} (h : m.sub n = .ok d) :
    ∃ d', n.sub m = .ok d' ∧ signOf d' = (signOf d).swap := by
  have hfloats {x y : Number} (hxy : (do return .float ((← x.toFloat).sub (← y.toFloat))) =
        (.ok d : Except Fault Number)) :
      ∃ d', (do return .float ((← y.toFloat).sub (← x.toFloat))) = (.ok d' : Except Fault Number) ∧
        signOf d' = (signOf d).swap := by
    cases hx : x.toFloat with
    | error f => rw [hx] at hxy; cases hxy
    | ok a =>
      cases hy : y.toFloat with
      | error f => rw [hx, hy] at hxy; cases hxy
      | ok b =>
        rw [hx, hy] at hxy
        cases hxy
        exact ⟨_, rfl, signOf_sub a b⟩
  cases m with
  | int i =>
    cases n with
    | int j =>
      cases h
      refine ⟨_, rfl, ?_⟩
      show Ord.compare (j - i) 0 = (Ord.compare (i - j) 0).swap
      rw [Int.compare_swap, ← compare_neg, Int.neg_sub, Int.neg_zero]
    | float y => exact hfloats h
  | float x => cases n <;> exact hfloats h

/-! ## Values -/

theorem compareTexts_swap (s t : String) : compareTexts t s = (compareTexts s t).swap := by
  unfold compareTexts
  by_cases hst : s < t
  · rw [if_pos hst, if_neg (String.lt_asymm hst), if_pos hst]
    rfl
  · by_cases hts : t < s
    · rw [if_pos hts, if_neg hst, if_pos hts]
      rfl
    · rw [if_neg hts, if_neg hst, if_neg hst, if_neg hts]
      rfl

/-- The order of values that are neither both moments nor durations. -/
def orderAsWritten : Value → Value → Except Fault Ordering
  | string s, string t => .ok (compareTexts s t)
  | number m, number n => .ok (m.order n)
  | bool a, bool b => .ok (Ord.compare a b)
  | v, w => do return compareTexts (← v.display) (← w.display)

theorem orderAsWritten_swap {v w : Value} {o : Ordering} (h : orderAsWritten v w = .ok o) :
    orderAsWritten w v = .ok o.swap := by
  unfold orderAsWritten at h ⊢
  split at h
  · cases h
    exact congrArg Except.ok (compareTexts_swap _ _)
  · cases h
    exact congrArg Except.ok (Number.order_swap _ _)
  · next a b =>
    cases h
    cases a <;> cases b <;> rfl
  · next hstrings hnumbers hbools =>
    split
    · exact (hstrings _ _ rfl rfl).elim
    · exact (hnumbers _ _ rfl rfl).elim
    · exact (hbools _ _ rfl rfl).elim
    · simp only [bind_eq_ok] at h ⊢
      obtain ⟨s, hs, t, ht, h⟩ := h
      cases h
      exact ⟨t, ht, s, hs, congrArg Except.ok (compareTexts_swap s t)⟩

/-- How values compare that are not both moments. -/
theorem compare_of_no_moment {v w : Value} (strict : Bool)
    (h : v.moment? = none ∨ w.moment? = none) :
    compare strict v w =
      if v.kind = .duration ∨ w.kind = .duration then do
        let m ← v.toNumber strict
        let n ← w.toNumber strict
        return signOf (← Failure.ofFault (m.sub n))
      else Failure.ofFault (orderAsWritten v w) := by
  unfold compare
  split
  · next hv hw =>
    rw [hv, hw] at h
    rcases h with h | h <;> cases h
  · clear h
    by_cases hd : v.kind = .duration ∨ w.kind = .duration
    · rw [if_pos hd, if_pos hd]
    · rw [if_neg hd, if_neg hd]
      split
      · rfl
      · rfl
      · rfl
      · next hstrings hnumbers hbools =>
        rw [orderAsWritten]
        · exact hstrings
        · exact hnumbers
        · exact hbools

/-- A comparison the other way round has the answer turned round. -/
theorem compare_swap {strict : Bool} {v w : Value} {o : Ordering}
    (h : compare strict v w = .ok o) : compare strict w v = .ok o.swap := by
  by_cases hmoments : v.moment? = none ∨ w.moment? = none
  · rw [compare_of_no_moment strict hmoments] at h
    rw [compare_of_no_moment strict hmoments.symm]
    by_cases hd : v.kind = .duration ∨ w.kind = .duration
    · rw [if_pos hd] at h
      rw [if_pos hd.symm]
      obtain ⟨m, hm, h⟩ := bind_eq_ok.mp h
      obtain ⟨n, hn, h⟩ := bind_eq_ok.mp h
      obtain ⟨d, hsub, h⟩ := bind_eq_ok.mp h
      obtain ⟨d', hsub', hsign⟩ := sub_swap (Failure.ofFault_eq_ok.mp hsub)
      cases h
      rw [hm, hn, ← hsign]
      exact bind_eq_ok.mpr ⟨n, rfl, bind_eq_ok.mpr ⟨m, rfl,
        bind_eq_ok.mpr ⟨d', Failure.ofFault_eq_ok.mpr hsub', rfl⟩⟩⟩
    · rw [if_neg hd] at h
      rw [if_neg (mt Or.symm hd)]
      exact Failure.ofFault_eq_ok.mpr (orderAsWritten_swap (Failure.ofFault_eq_ok.mp h))
  · obtain ⟨hv, hw⟩ := not_or.mp hmoments
    obtain ⟨t, ht⟩ := Option.ne_none_iff_exists'.mp hv
    obtain ⟨u, hu⟩ := Option.ne_none_iff_exists'.mp hw
    simp only [compare, ht, hu, Failure.ofFault_eq_ok, bind_eq_ok] at h ⊢
    obtain ⟨a, ha, b, hb, h⟩ := h
    cases h
    exact ⟨b, hb, a, ha, congrArg Except.ok (Int.compare_swap a b).symm⟩

end Value

end NoteQuery
