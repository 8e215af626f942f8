/-
The signs of differences.

Every number but the one that is none has a place on the line of the rational numbers with both
its ends, and numbers compare as their places do (`Number.order_eq`).  Durations are compared by
the sign of a difference instead.  A difference of binary numbers is rounded, but never to zero
(`ofDyadic_sign`), and so it still has the right sign; but an integer that a binary number is
subtracted from is rounded before.  Rounding keeps the order (`ofRatio_mono`), so what is
lost is only that the two are different (`Number.Merged`), and everywhere else the sign of the
difference tells how the numbers compare (`Number.signOf_sub`).
-/
import NoteQuery.Proofs.Extremes
import NoteQuery.Proofs.ValueOrder

namespace NoteQuery

/-- The rational numbers in their order, between two ends. -/
abbrev Line := WithBot (WithTop ℚ)

/-- A rational number on the line. -/
def Line.at (q : ℚ) : Line :=
  ((q : WithTop ℚ) : WithBot (WithTop ℚ))

theorem Line.at_strictMono : StrictMono Line.at :=
  WithBot.coe_strictMono.comp WithTop.coe_strictMono

theorem Line.at_ne_bot (q : ℚ) : Line.at q ≠ ⊥ :=
  WithBot.coe_ne_bot

theorem Line.at_ne_top (q : ℚ) : Line.at q ≠ ⊤ :=
  fun h => WithTop.coe_ne_top (WithBot.coe_injective h)

theorem Line.cmp_at (p q : ℚ) : cmp (Line.at p) (Line.at q) = cmp p q :=
  Line.at_strictMono.cmp_map_eq p q

/-- Both sides of a comparison may be multiplied. -/
theorem cmp_mul_pos (p q : ℚ) {c : ℚ} (hc : 0 < c) : cmp (p * c) (q * c) = cmp p q :=
  (strictMono_mul_right_of_pos hc).cmp_map_eq p q

theorem compare_eq_cmp (i j : Int) : Ord.compare i j = cmp (i : ℚ) j := by
  rw [Int.cast_strictMono.cmp_map_eq, cmp_eq_compare]

namespace Binary64

/-- Where a number lies on the line. -/
def place : Binary64 → Line
  | .nan => ⊥
  | .infinite s => if s then ⊥ else ⊤
  | .finite s m e _ => Line.at (signed s m * 2 ^ e)

theorem signed_mul_zpow {s : Bool} {m n : Nat} {d e : Int} (h : (m : ℚ) * 2 ^ d = n * 2 ^ e) :
    (signed s m : ℚ) * 2 ^ d = signed s n * 2 ^ e := by
  cases s with
  | false => exact h
  | true =>
    simp only [signed, if_true, Int.cast_neg, Int.cast_natCast, neg_mul, h]

/-- The value of a number as a quotient of integers. -/
theorem signed_onGrid (s : Bool) (m : Nat) (e : Int) :
    (signed s m * 2 ^ e : ℚ) = signed s (onGrid m 1 (-e)).1 / (onGrid m 1 (-e)).2 := by
  cases s with
  | true =>
    simp only [signed, if_true, Int.cast_neg, Int.cast_natCast, neg_mul, neg_div, onGrid_dyadic]
  | false => simp only [signed, Bool.false_eq_true, if_false, Int.cast_natCast, onGrid_dyadic]

theorem compare?_eq {x y : Binary64} (hx : x.isNan = false) (hy : y.isNan = false) :
    x.compare? y = some (cmp x.place y.place) := by
  cases x with
  | nan => cases hx
  | infinite s =>
    cases y with
    | nan => cases hy
    | infinite t => cases s <;> cases t <;> rfl
    | finite t n e => cases s <;> rfl
  | finite s m d =>
    cases y with
    | nan => cases hy
    | infinite t => cases t <;> rfl
    | finite t n e =>
      rw [compare?, Option.some.injEq]
      show _ = cmp (Line.at _) (Line.at _)
      rw [compare_eq_cmp, Line.cmp_at, ← cmp_mul_pos _ _ (zpow_pos two_pos (min d e)),
        signed_mul_zpow (refine_value (min_le_left d e)),
        signed_mul_zpow (refine_value (min_le_right d e))]

end Binary64

namespace Number

/-- Where a number lies on the line. -/
def place : Number → Line
  | .int n => Line.at n
  | .float x => x.place

theorem compareIntFloat?_eq (k : Int) {x : Binary64} (hx : x.isNan = false) :
    compareIntFloat? k x = some (cmp (Line.at k) x.place) := by
  cases x with
  | nan => cases hx
  | infinite s => cases s <;> rfl
  | finite s m e h =>
    have hpos : (0 : ℚ) < (Binary64.onGrid m 1 (-e)).2 :=
      Nat.cast_pos.mpr (Binary64.onGrid_pos m (-e) Nat.one_pos)
    have hsigned := (eq_div_iff hpos.ne').mp (Binary64.signed_onGrid s m e)
    rw [compareIntFloat?, Option.some.injEq]
    show _ = cmp (Line.at _) (Line.at _)
    rw [compare_eq_cmp, Line.cmp_at, ← hsigned, Int.cast_mul, Int.cast_natCast,
      cmp_mul_pos _ _ hpos]

/-- Numbers compare as their places on the line. -/
theorem compare?_eq {m n : Number} (hm : m.isNan = false) (hn : n.isNan = false) :
    m.compare? n = some (cmp m.place n.place) := by
  cases m with
  | int k =>
    cases n with
    | int l => exact congrArg some ((compare_eq_cmp k l).trans (Line.cmp_at _ _).symm)
    | float y => exact compareIntFloat?_eq k hn
  | float x =>
    cases n with
    | int l =>
      rw [compare?, compareIntFloat?_eq l hm, Option.map_some, cmp_swap]
      rfl
    | float y => exact Binary64.compare?_eq hm hn

theorem order_eq {m n : Number} (hm : m.isNan = false) (hn : n.isNan = false) :
    m.order n = cmp m.place n.place := by
  rw [order, compare?_eq hm hn]
  rfl

end Number

namespace Binary64

/-! ## Rounded magnitudes -/

/-- The magnitude to which a quotient is rounded as long as it is in range. -/
def rounded (num den : Nat) : ℚ :=
  nearest (onGrid num den (gridExponent num den)).1 (onGrid num den (gridExponent num den)).2 *
    2 ^ gridExponent num den

theorem ofRatio_isNan (s : Bool) (num den : Nat) : (ofRatio s num den).isNan = false := by
  have hpack (m : Nat) (e : Int) : (pack s m e).isNan = false := by
    unfold pack
    split
    split <;> rfl
  unfold ofRatio
  split
  · rfl
  · exact hpack _ _

theorem pack_place {s : Bool} {m : Nat} {e : Int} :
    pack s m e = infinite s ∨ (pack s m e).place = Line.at (signed s m * 2 ^ e) := by
  unfold pack
  by_cases hcarry : m = pow2 53
  · rw [if_pos hcarry]
    dsimp only
    split
    · refine .inr (congrArg Line.at (signed_mul_zpow ?_))
      rw [hcarry, zpow_add_one₀ two_ne_zero, pow2, pow2]
      push_cast [Nat.pow_eq]
      ring
    · exact .inl rfl
  · rw [if_neg hcarry]
    dsimp only
    split
    · exact .inr rfl
    · exact .inl rfl

section Rounded

variable {num den n : Nat} {e : Int}

theorem ofRatio_place (s : Bool) (hnum : 0 < num) :
    ofRatio s num den = infinite s ∨
      (ofRatio s num den).place = Line.at ((if s then -1 else 1) * rounded num den) := by
  rw [ofRatio_eq_pack hnum]
  refine pack_place.imp_right fun h => h.trans (congrArg Line.at ?_)
  cases s with
  | false => simp only [signed, rounded, Bool.false_eq_true, if_false, one_mul, Int.cast_natCast]
  | true =>
    simp only [signed, rounded, if_true, neg_mul, one_mul, Int.cast_neg, Int.cast_natCast]

/-- A number of 53 digits lies on every grid that is not coarser than its own. -/
theorem exists_steps (n : Nat) {d e : Int} (h : d ≤ e) : ∃ k : Nat, (k * 2 ^ d : ℚ) = n * 2 ^ e :=
  ⟨refine n e d, refine_value h⟩

/-- A quotient stands on a grid that is not coarser than that of a number of 53 digits above it. -/
theorem gridExponent_le (hnum : 0 < num) (hden : 0 < den) (hn : n < pow2 53) (he : -1074 ≤ e)
    (h : (num / den : ℚ) ≤ n * 2 ^ e) : gridExponent num den ≤ e := by
  obtain ⟨-, -, hlow⟩ := gridExponent_spec hnum hden
  rcases hlow with hlow | hlow
  · have hlt : (n * 2 ^ e : ℚ) < 2 ^ (53 + e) :=
      (mul_lt_mul_of_pos_right (Nat.cast_lt.mpr hn) (zpow_pos two_pos e)).trans_eq
        (pow2_mul_zpow 53 e)
    have := (zpow_lt_zpow_iff_right₀ one_lt_two).mp ((hlow.trans h).trans_lt hlt)
    omega
  · exact hlow.trans_le he

/-- Rounding does not lead beyond a number that needs no rounding. -/
theorem rounded_le (hnum : 0 < num) (hden : 0 < den) (hn : Canonical n e)
    (h : (num / den : ℚ) ≤ n * 2 ^ e) : rounded num den ≤ n * 2 ^ e := by
  obtain ⟨k, hk⟩ := exists_steps n (gridExponent_le hnum hden hn.1 hn.2.1 h)
  rw [← hk, rounded]
  refine mul_le_mul_of_nonneg_right (Nat.cast_le.mpr ?_) (zpow_pos two_pos _).le
  exact nearest_le ((onGrid_le_iff hden).mpr (h.trans_eq hk.symm))

theorem le_rounded (hnum : 0 < num) (hden : 0 < den) (hn : Canonical n e)
    (h : (n * 2 ^ e : ℚ) ≤ num / den) : n * 2 ^ e ≤ rounded num den := by
  have hpos := onGrid_pos num (gridExponent num den) hden
  obtain ⟨-, hdigits⟩ := nearest_onGrid hnum hden
  rcases le_or_gt (gridExponent num den) e with hle | hlt
  · obtain ⟨k, hk⟩ := exists_steps n hle
    rw [← hk, rounded]
    refine mul_le_mul_of_nonneg_right (Nat.cast_le.mpr ?_) (zpow_pos two_pos _).le
    exact le_nearest hpos ((le_onGrid_iff hden).mpr (hk.trans_le h))
  · -- On a coarser grid every number has all its digits, and is larger for that.
    have hfull : pow2 52 ≤ nearest (onGrid num den (gridExponent num den)).1
        (onGrid num den (gridExponent num den)).2 :=
      hdigits.resolve_right (hn.2.1.trans_lt hlt).ne'
    calc (n * 2 ^ e : ℚ) ≤ pow2 53 * 2 ^ e :=
          mul_le_mul_of_nonneg_right (Nat.cast_le.mpr hn.1.le) (zpow_pos two_pos e).le
      _ = 2 ^ (53 + e) := pow2_mul_zpow 53 e
      _ ≤ 2 ^ (52 + gridExponent num den) := zpow_le_zpow_right₀ one_le_two (by omega)
      _ = pow2 52 * 2 ^ gridExponent num den := (pow2_mul_zpow 52 _).symm
      _ ≤ rounded num den :=
          mul_le_mul_of_nonneg_right (Nat.cast_le.mpr hfull) (zpow_pos two_pos _).le

/-- What is not below the least positive number is not rounded to zero. -/
theorem rounded_pos (hnum : 0 < num) (hden : 0 < den) (h : (2 ^ (-1074 : Int) : ℚ) ≤ num / den) :
    0 < rounded num den := by
  have hleast : ((1 : Nat) : ℚ) * 2 ^ (-1074 : Int) = 2 ^ (-1074 : Int) := by
    rw [Nat.cast_one, one_mul]
  refine (mul_pos (Nat.cast_pos.mpr Nat.one_pos) (zpow_pos two_pos (-1074 : Int))).trans_le ?_
  exact le_rounded hnum hden (by decide) (hleast.trans_le h)

end Rounded

/-! ## The sign of a rounded difference -/

theorem ofDyadic_sign {s : Bool} {m : Nat} {e : Int} (hm : 0 < m) (he : -1074 ≤ e) :
    cmp (ofDyadic s m e).place (Line.at 0) = if s then .lt else .gt := by
  have hden := onGrid_pos m (-e) Nat.one_pos
  have hratio := onGrid_dyadic m e
  have hvalue : (0 : ℚ) < m * 2 ^ e := mul_pos (Nat.cast_pos.mpr hm) (zpow_pos two_pos e)
  have hnum : 0 < (onGrid m 1 (-e)).1 := by
    refine Nat.pos_of_ne_zero fun hzero => ?_
    rw [hzero, Nat.cast_zero, zero_div] at hratio
    exact hvalue.ne hratio
  have hleast : (2 ^ (-1074 : Int) : ℚ) ≤ m * 2 ^ e := by
    refine (zpow_le_zpow_right₀ one_le_two he).trans ?_
    exact le_mul_of_one_le_left (zpow_pos two_pos e).le (Nat.one_le_cast.mpr hm)
  have hpos := rounded_pos hnum hden (hleast.trans_eq hratio.symm)
  show cmp (ofRatio s (onGrid m 1 (-e)).1 (onGrid m 1 (-e)).2).place (Line.at 0) = _
  rcases ofRatio_place s hnum with h | h
  · rw [h]
    cases s <;> rfl
  · rw [h, Line.cmp_at]
    cases s with
    | false => exact (cmp_eq_gt_iff _ _).mpr (by simpa using hpos)
    | true => exact (cmp_eq_lt_iff _ _).mpr (by simpa using hpos)

/-! ## Rounded integers -/

theorem rounded_nonneg (num den : Nat) : 0 ≤ rounded num den :=
  mul_nonneg (Nat.cast_nonneg _) (zpow_pos two_pos _).le

section Integers

variable {k : Int} {n : Nat} {e : Int}

theorem ofInt_place_of_pos (hfinite : (ofInt k).isFinite) (hk : 0 < k) :
    (ofInt k).place = Line.at (rounded k.natAbs 1) := by
  unfold ofInt at hfinite ⊢
  rw [decide_eq_false (not_lt.mpr hk.le)] at hfinite ⊢
  rcases ofRatio_place false (Int.natAbs_pos.mpr hk.ne') with h | h
  · rw [h] at hfinite
    cases hfinite
  · rw [h, if_neg Bool.false_ne_true, one_mul]

theorem ofInt_place_of_neg (hfinite : (ofInt k).isFinite) (hk : k < 0) :
    (ofInt k).place = Line.at (-rounded k.natAbs 1) := by
  unfold ofInt at hfinite ⊢
  rw [decide_eq_true hk] at hfinite ⊢
  rcases ofRatio_place true (Int.natAbs_pos.mpr hk.ne) with h | h
  · rw [h] at hfinite
    cases hfinite
  · rw [h, if_pos rfl, neg_one_mul]

theorem ofInt_zero_place : (ofInt 0).place = Line.at 0 := by
  refine congrArg Line.at ?_
  rw [show signed (decide ((0 : Int) < 0)) 0 = 0 from rfl, Int.cast_zero, zero_mul]

/-- The nearest binary number to an integer lies on the same side of any other one. -/
theorem ofInt_mono {x : Binary64} (hfinite : (ofInt k).isFinite) (hx : x.isNan = false) :
    (Line.at k ≤ x.place → (ofInt k).place ≤ x.place) ∧
      (x.place ≤ Line.at k → x.place ≤ (ofInt k).place) := by
  cases x with
  | nan => cases hx
  | infinite s =>
    cases s with
    | true => exact ⟨fun h => absurd (le_bot_iff.mp h) (Line.at_ne_bot _), fun _ => bot_le⟩
    | false => exact ⟨fun _ => le_top, fun h => absurd (top_le_iff.mp h) (Line.at_ne_top _)⟩
  | finite t n e hn =>
    have hq : (0 : ℚ) ≤ n * 2 ^ e := mul_nonneg (Nat.cast_nonneg n) (zpow_pos two_pos e).le
    have habs : ((k.natAbs : Nat) : ℚ) / (1 : Nat) = |(k : ℚ)| := by
      rw [Nat.cast_one, div_one, Nat.cast_natAbs, Int.cast_abs]
    rw [place]
    rcases lt_trichotomy k 0 with hk | rfl | hk
    · have hnum : 0 < k.natAbs := Int.natAbs_pos.mpr hk.ne
      have hk' : (k : ℚ) < 0 := Int.cast_lt_zero.mpr hk
      rw [abs_of_neg hk'] at habs
      rw [ofInt_place_of_neg hfinite hk]
      simp only [Line.at_strictMono.le_iff_le]
      cases t with
      | false =>
        simp only [signed, Bool.false_eq_true, if_false, Int.cast_natCast]
        exact ⟨fun _ => (neg_nonpos.mpr (rounded_nonneg _ _)).trans hq,
          fun h => absurd (hq.trans h) (not_le.mpr hk')⟩
      | true =>
        simp only [signed, if_true, Int.cast_neg, Int.cast_natCast, neg_mul]
        refine ⟨fun h => neg_le_neg (le_rounded hnum Nat.one_pos hn ?_),
          fun h => neg_le_neg (rounded_le hnum Nat.one_pos hn ?_)⟩
        · rw [habs]
          exact le_neg_of_le_neg h
        · rw [habs]
          exact neg_le_of_neg_le h
    · rw [Int.cast_zero, ofInt_zero_place]
      exact ⟨id, id⟩
    · have hnum : 0 < k.natAbs := Int.natAbs_pos.mpr hk.ne'
      have hk' : (0 : ℚ) < k := Int.cast_pos.mpr hk
      rw [abs_of_pos hk'] at habs
      rw [ofInt_place_of_pos hfinite hk]
      simp only [Line.at_strictMono.le_iff_le]
      cases t with
      | false =>
        simp only [signed, Bool.false_eq_true, if_false, Int.cast_natCast]
        exact ⟨fun h => rounded_le hnum Nat.one_pos hn (habs.trans_le h),
          fun h => le_rounded hnum Nat.one_pos hn (h.trans_eq habs.symm)⟩
      | true =>
        simp only [signed, if_true, Int.cast_neg, Int.cast_natCast, neg_mul]
        exact ⟨fun h => absurd (h.trans (neg_nonpos.mpr hq)) (not_le.mpr hk'),
          fun _ => (neg_nonpos.mpr hq).trans (rounded_nonneg _ _)⟩

end Integers

end Binary64

/-! ## Differences -/

namespace Value

theorem signOf_eq {n : Number} (hn : n.isNan = false) : signOf n = cmp n.place (Line.at 0) :=
  (Number.order_eq hn rfl).trans (by rw [Number.place, Int.cast_zero])

/-- The sign of a rounded difference of binary numbers is that of the exact one. -/
theorem signOf_binary_sub {x y : Binary64} (hx : x.isNan = false) (hy : y.isNan = false) :
    signOf (.float (x.sub y)) = cmp x.place y.place := by
  cases x with
  | nan => cases hx
  | infinite s =>
    cases y with
    | nan => cases hy
    | infinite t => cases s <;> cases t <;> rfl
    | finite t n e => cases s <;> rfl
  | finite s m d hd =>
    cases y with
    | nan => cases hy
    | infinite t => cases t <;> rfl
    | finite t n e he =>
      have hcompare := Binary64.compare?_eq hx hy
      rw [Binary64.compare?, Option.some.injEq] at hcompare
      rw [← hcompare]
      simp only [Binary64.sub, Binary64.neg, Binary64.withSign, Binary64.negative, Binary64.add,
        Binary64.signed_not]
      generalize Binary64.signed s _ = a
      generalize Binary64.signed t _ = b
      have hfine : -1074 ≤ min d e := le_min hd.2.1 he.2.1
      rw [Int.compare_eq_ite_lt]
      by_cases hab : a + -b = 0
      · rw [if_pos hab, signOf_zero, if_neg (by omega), if_neg (by omega)]
      · rw [if_neg hab]
        refine (signOf_eq (n := .float _) (Binary64.ofRatio_isNan _ _ _)).trans ?_
        refine (Binary64.ofDyadic_sign (Int.natAbs_pos.mpr hab) hfine).trans ?_
        rcases Int.lt_or_lt_of_ne (show a ≠ b by omega) with hlt | hlt
        · rw [if_pos (decide_eq_true (by omega)), if_pos hlt]
        · rw [if_neg (by simp only [decide_eq_true_eq]; omega), if_neg (by omega), if_pos hlt]

end Value

namespace Number

/-- An integer that is no binary number, and the binary number to which it is rounded. -/
inductive Merged : Number → Number → Prop
  | intro {k : Int} {x y : Binary64} : (Number.int k).toFloat = .ok y →
      (Number.float y).same (.float x) → ¬ (Number.int k).same (.float x) →
      Merged (.int k) (.float x)

theorem same_iff {m n : Number} (hm : m.isNan = false) (hn : n.isNan = false) :
    m.same n ↔ m.place = n.place := by
  rw [same, compare?_eq hm hn, beq_iff_eq, Option.some.injEq, cmp_eq_eq_iff]

theorem toFloat_isNan {n : Number} {x : Binary64} (hn : n.isNan = false) (h : n.toFloat = .ok x) :
    x.isNan = false := by
  cases n with
  | int k =>
    rw [toFloat] at h
    split at h
    · cases h
      exact Binary64.ofRatio_isNan _ _ _
    · cases h
  | float y =>
    cases h
    exact hn

/-- Rounding an integer keeps its order to a binary number, unless it is rounded onto that. -/
theorem cmp_toFloat {k : Int} {x y : Binary64} (hx : x.isNan = false)
    (hy : (int k).toFloat = .ok y) (hmerged : ¬ Merged (.int k) (.float x)) :
    cmp y.place x.place = cmp (Line.at k) x.place := by
  have hnan : y.isNan = false := toFloat_isNan rfl hy
  have hmono : (Line.at k ≤ x.place → y.place ≤ x.place) ∧
      (x.place ≤ Line.at k → x.place ≤ y.place) := by
    rw [toFloat] at hy
    split at hy
    · next hfinite =>
      cases hy
      exact Binary64.ofInt_mono hfinite hx
    · cases hy
  have hsame : y.place = x.place → Line.at k = x.place := by
    intro h
    by_contra hne
    refine hmerged (.intro hy ((same_iff (m := .float y) (n := .float x) hnan hx).mpr h) ?_)
    rwa [same_iff (m := .int k) (n := .float x) rfl hx]
  rcases lt_trichotomy (Line.at k) x.place with h | h | h
  · rw [(cmp_eq_lt_iff _ _).mpr h, cmp_eq_lt_iff]
    exact lt_of_le_of_ne (hmono.1 h.le) fun heq => h.ne (hsame heq)
  · rw [h, cmp_self_eq_eq, cmp_eq_eq_iff]
    exact le_antisymm (hmono.1 h.le) (hmono.2 h.ge)
  · rw [(cmp_eq_gt_iff _ _).mpr h, cmp_eq_gt_iff]
    exact lt_of_le_of_ne (hmono.2 h.le) fun heq => h.ne (hsame heq.symm).symm

/-- The sign of a difference tells how the numbers compare, if no integer of them is rounded onto
the other number. -/
theorem signOf_sub {m n d : Number} (hm : m.isNan = false) (hn : n.isNan = false)
    (hmn : ¬ m.Merged n) (hnm : ¬ n.Merged m) (h : m.sub n = .ok d) :
    Value.signOf d = cmp m.place n.place := by
  cases m with
  | int k =>
    cases n with
    | int l =>
      cases h
      show Ord.compare (k - l) 0 = cmp (Line.at k) (Line.at l)
      rw [Line.cmp_at, ← compare_eq_cmp, Int.compare_eq_ite_lt, Int.compare_eq_ite_lt]
      simp only [Int.sub_pos, sub_neg]
    | float x =>
      obtain ⟨y, hy, h⟩ := bind_eq_ok.mp h
      cases h
      exact (Value.signOf_binary_sub (toFloat_isNan hm hy) hn).trans (cmp_toFloat hn hy hmn)
  | float x =>
    cases n with
    | int l =>
      obtain ⟨y, hy, h⟩ := bind_eq_ok.mp h
      obtain ⟨z, hz, h⟩ := bind_eq_ok.mp h
      cases hy
      cases h
      refine (Value.signOf_binary_sub hm (toFloat_isNan hn hz)).trans ?_
      rw [← cmp_swap, cmp_toFloat hm hz hnm, cmp_swap]
      rfl
    | float y =>
      cases h
      exact Value.signOf_binary_sub hm hn

end Number

end NoteQuery
