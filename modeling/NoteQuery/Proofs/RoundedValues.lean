/-
Rounding as a function on rational numbers.

Of the integers, a rational number is rounded to one that is no more than one half away, and from
halfway between two to the even one.  There is only one such integer, and it does not fall when the
number grows (`IsNearest.mono`).  On grids, which do not get finer either, the same holds of the
binary numbers: they are what the exact values are rounded to by one function (`roundRat`), which
keeps the order (`roundRat_mono`), leaves 53 digits alone (`roundRat_eq_self`) and is off by half a
step at most (`abs_sub_roundRat_le`).  Sums and products are rounded exact ones (`add_place`,
`mul_place`).
-/
import NoteQuery.Proofs.RoundedIntegers

namespace NoteQuery.Binary64

/-! ## The nearest integer -/

/-- The integer is one half away at most, and less than that if it is odd. -/
structure IsNearest (n : Int) (q : ℚ) : Prop where
  close : |2 * q - 2 * n| ≤ 1
  even : |2 * q - 2 * n| = 1 → n % 2 = 0

namespace IsNearest

variable {m n : Int} {p q : ℚ}

theorem mono (hm : IsNearest m p) (hn : IsNearest n q) (h : p ≤ q) : m ≤ n := by
  by_contra hlt
  have hlt : (n : ℚ) + 1 ≤ m := by exact_mod_cast not_le.mp hlt
  obtain ⟨hlow, -⟩ := abs_le.mp hm.close
  obtain ⟨-, hhigh⟩ := abs_le.mp hn.close
  -- both lie halfway between the same two integers, of which only one is even
  have hm' := hm.even (by rw [show 2 * p - 2 * m = -1 by linarith]; norm_num)
  have hn' := hn.even (by rw [show 2 * q - 2 * n = 1 by linarith]; norm_num)
  have heq : (n : ℚ) + 1 = m := by linarith
  have heq : n + 1 = m := by exact_mod_cast heq
  omega

theorem unique (hm : IsNearest m q) (hn : IsNearest n q) : m = n :=
  le_antisymm (hm.mono hn le_rfl) (hn.mono hm le_rfl)

theorem neg (h : IsNearest n q) : IsNearest (-n) (-q) := by
  have habs : |2 * -q - 2 * ((-n : Int) : ℚ)| = |2 * q - 2 * n| := by
    rw [← abs_neg]
    congr 1
    push_cast
    ring
  refine ⟨habs.trans_le h.close, fun htie => ?_⟩
  have heven := h.even (habs.symm.trans htie)
  omega

theorem of_lt (h : |q - n| < 1 / 2) : IsNearest n q := by
  have hlt : |2 * q - 2 * n| < 1 := by
    rw [← mul_sub, abs_mul, abs_two]
    linarith
  exact ⟨hlt.le, fun htie => absurd htie hlt.ne⟩

end IsNearest

/-- A quotient is its integer part and a fraction. -/
theorem div_eq_add_fraction (num : Nat) {den : Nat} (hden : 0 < den) :
    (num / den : ℚ) = (num / den : Nat) + (num % den : Nat) / den := by
  have hden' : (den : ℚ) ≠ 0 := Nat.cast_ne_zero.mpr hden.ne'
  rw [div_eq_iff hden', add_mul, div_mul_cancel₀ _ hden', mul_comm]
  exact_mod_cast (Nat.div_add_mod num den).symm

theorem isNearest_nearest (num : Nat) {den : Nat} (hden : 0 < den) :
    IsNearest (nearest num den) (num / den) := by
  have hden' : (0 : ℚ) < den := Nat.cast_pos.mpr hden
  obtain ⟨part, hpart⟩ : ∃ part : ℚ, part = (num % den : Nat) / den := ⟨_, rfl⟩
  have hsplit := div_eq_add_fraction num hden
  have hpos : 0 ≤ part := hpart ▸ div_nonneg (Nat.cast_nonneg _) hden'.le
  have hlt : part < 1 := by
    rw [hpart, div_lt_one hden']
    exact_mod_cast Nat.mod_lt num hden
  have hdouble : 2 * part * den = (2 * (num % den) : Nat) := by
    rw [hpart, mul_assoc, div_mul_cancel₀ _ hden'.ne']
    push_cast
    rfl
  rw [hsplit, ← hpart]
  unfold nearest
  dsimp only
  generalize num / den = k
  split_ifs with hbelow habove heven
  · have hhalf : 2 * part < 1 := by
      rw [← mul_lt_mul_iff_left₀ hden', hdouble, one_mul]
      exact_mod_cast hbelow
    apply IsNearest.of_lt
    push_cast
    rw [add_sub_cancel_left, abs_of_nonneg hpos]
    linarith
  · have hhalf : 1 < 2 * part := by
      rw [← mul_lt_mul_iff_left₀ hden', hdouble, one_mul]
      exact_mod_cast habove
    apply IsNearest.of_lt
    push_cast
    rw [add_sub_add_left_eq_sub, abs_of_neg (by linarith)]
    linarith
  · have hhalf : 2 * part = 1 := by
      rw [← mul_left_inj' hden'.ne', hdouble, one_mul]
      exact_mod_cast (show 2 * (num % den) = den by omega)
    refine ⟨?_, fun _ => by omega⟩
    push_cast
    rw [show 2 * ((k : ℚ) + part) - 2 * k = 1 by linarith, abs_one]
  · have hhalf : 2 * part = 1 := by
      rw [← mul_left_inj' hden'.ne', hdouble, one_mul]
      exact_mod_cast (show 2 * (num % den) = den by omega)
    refine ⟨?_, fun _ => by omega⟩
    push_cast
    rw [show 2 * ((k : ℚ) + part) - 2 * (k + 1) = -1 by linarith, abs_neg, abs_one]

/-- A number becomes the integer nearest to it. -/
theorem toInt?_toEven {x : Binary64} {q : ℚ} (h : x.place = Line.at q) :
    ∃ n, x.toInt? .toEven = some n ∧ IsNearest n q := by
  obtain ⟨s, m, e, hm, rfl, rfl⟩ := exists_of_place h
  refine ⟨_, rfl, ?_⟩
  have hnearest := isNearest_nearest (onGrid m 1 (-e)).1 (onGrid_pos m (-e) Nat.one_pos)
  rw [signed_onGrid]
  cases s with
  | true =>
    simp only [signed, if_true, Int.cast_neg, Int.cast_natCast, neg_div]
    exact hnearest.neg
  | false => exact hnearest

/-! ## Rounded magnitudes -/

section Rounded

variable {num den num' den' : Nat}

theorem rounded_zero (den : Nat) : rounded 0 den = 0 := by
  have hgrid : (onGrid 0 den (gridExponent 0 den)).1 = 0 := by
    unfold onGrid
    split
    · rfl
    · exact Nat.zero_mul _
  have hnearest : nearest 0 (onGrid 0 den (gridExponent 0 den)).2 = 0 :=
    Nat.le_zero.mp (nearest_le (Nat.zero_le _))
  rw [rounded, hgrid, hnearest, Nat.cast_zero, zero_mul]

/-- The grid of a quotient below a power of two has 53 digits up to there, or it is finer. -/
theorem gridExponent_le_of_lt (hnum : 0 < num) (hden : 0 < den) {k : Int} (hk : -1074 ≤ k)
    (h : (num / den : ℚ) < 2 ^ (53 + k)) : gridExponent num den ≤ k := by
  obtain ⟨-, -, hlow⟩ := gridExponent_spec hnum hden
  rcases hlow with hlow | hlow
  · have := (zpow_lt_zpow_iff_right₀ one_lt_two).mp (hlow.trans_lt h)
    omega
  · omega

theorem rounded_mono (hden : 0 < den) (hden' : 0 < den') (h : (num / den : ℚ) ≤ num' / den') :
    rounded num den ≤ rounded num' den' := by
  rcases Nat.eq_zero_or_pos num with rfl | hnum
  · rw [rounded_zero]
    exact rounded_nonneg num' den'
  have hnum' : 0 < num' := by
    have hpos : (0 : ℚ) < num' / den' :=
      (div_pos (Nat.cast_pos.mpr hnum) (Nat.cast_pos.mpr hden)).trans_le h
    exact Nat.cast_pos.mp ((div_pos_iff_of_pos_right (Nat.cast_pos.mpr hden')).mp hpos)
  obtain ⟨hmin, -, -⟩ := gridExponent_spec hnum hden
  obtain ⟨hmin', hhigh', -⟩ := gridExponent_spec hnum' hden'
  have hle := gridExponent_le_of_lt hnum hden hmin' (h.trans_lt hhigh')
  rcases hle.lt_or_eq with hlt | heq
  · -- on a coarser grid every number has all its digits, and is larger for that
    obtain ⟨hround, -⟩ := nearest_onGrid hnum hden
    obtain ⟨-, hdigits'⟩ := nearest_onGrid hnum' hden'
    have hfull := hdigits'.resolve_right (hmin.trans_lt hlt).ne'
    calc rounded num den ≤ pow2 53 * 2 ^ gridExponent num den :=
          mul_le_mul_of_nonneg_right (Nat.cast_le.mpr hround) (zpow_pos two_pos _).le
      _ = 2 ^ (53 + gridExponent num den) := pow2_mul_zpow 53 _
      _ ≤ 2 ^ (52 + gridExponent num' den') := zpow_le_zpow_right₀ one_le_two (by omega)
      _ = pow2 52 * 2 ^ gridExponent num' den' := (pow2_mul_zpow 52 _).symm
      _ ≤ rounded num' den' :=
          mul_le_mul_of_nonneg_right (Nat.cast_le.mpr hfull) (zpow_pos two_pos _).le
  · have hnearest := isNearest_nearest (onGrid num den (gridExponent num den)).1
      (onGrid_pos num (gridExponent num den) hden)
    have hnearest' := isNearest_nearest (onGrid num' den' (gridExponent num' den')).1
      (onGrid_pos num' (gridExponent num' den') hden')
    rw [onGrid_ratio] at hnearest hnearest'
    have hquot := div_le_div_of_nonneg_right h (zpow_pos two_pos (gridExponent num den)).le
    rw [heq] at hnearest hquot
    have hsteps := hnearest.mono hnearest' hquot
    rw [rounded, rounded, heq]
    exact mul_le_mul_of_nonneg_right (by exact_mod_cast hsteps) (zpow_pos two_pos _).le

/-- Rounding is off by half a step at most. -/
theorem abs_rounded_sub_le (num : Nat) (hden : 0 < den) :
    |num / den - rounded num den| ≤ 2 ^ gridExponent num den / 2 := by
  have hstep : (0 : ℚ) < 2 ^ gridExponent num den := zpow_pos two_pos _
  have hclose := (isNearest_nearest (onGrid num den (gridExponent num den)).1
    (onGrid_pos num (gridExponent num den) hden)).close
  rw [onGrid_ratio, Int.cast_natCast, ← mul_sub, abs_mul, abs_two] at hclose
  have hscale : (num / den - rounded num den : ℚ) =
      (num / den / 2 ^ gridExponent num den -
        nearest (onGrid num den (gridExponent num den)).1
          (onGrid num den (gridExponent num den)).2) * 2 ^ gridExponent num den := by
    rw [sub_mul, div_mul_cancel₀ _ hstep.ne', rounded]
  rw [hscale, abs_mul, abs_of_pos hstep, le_div_iff₀ two_pos]
  calc _ = 2 * |_| * 2 ^ gridExponent num den := by ring
    _ ≤ 1 * 2 ^ gridExponent num den := mul_le_mul_of_nonneg_right hclose hstep.le
    _ = 2 ^ gridExponent num den := one_mul _

end Rounded

/-! ## Rounded values -/

/-- What a rational number is rounded to, as long as it is in range. -/
def roundRat (q : ℚ) : ℚ :=
  if q < 0 then -rounded q.num.natAbs q.den else rounded q.num.natAbs q.den

section Round

variable {p q : ℚ}

theorem abs_num_div_den (q : ℚ) : (q.num.natAbs / q.den : ℚ) = |q| := by
  rw [Nat.cast_natAbs, Int.cast_abs, ← Nat.abs_cast q.den, ← abs_div, Rat.num_div_den]

theorem roundRat_mono (h : p ≤ q) : roundRat p ≤ roundRat q := by
  have hp := rounded_nonneg p.num.natAbs p.den
  have hq := rounded_nonneg q.num.natAbs q.den
  unfold roundRat
  split_ifs with hp' hq' hq'
  · refine neg_le_neg (rounded_mono q.den_pos p.den_pos ?_)
    rw [abs_num_div_den, abs_num_div_den, abs_of_neg hp', abs_of_neg hq']
    exact neg_le_neg h
  · exact (neg_nonpos.mpr hp).trans hq
  · exact absurd (h.trans_lt hq') hp'
  · refine rounded_mono p.den_pos q.den_pos ?_
    rw [abs_num_div_den, abs_num_div_den, abs_of_nonneg (not_lt.mp hp'),
      abs_of_nonneg (not_lt.mp hq')]
    exact h

theorem roundRat_zero : roundRat 0 = 0 :=
  rounded_zero 1

theorem roundRat_neg (q : ℚ) : roundRat (-q) = -roundRat q := by
  rcases lt_trichotomy q 0 with h | rfl | h
  · rw [roundRat, roundRat, if_neg (by linarith), if_pos h, neg_neg, Rat.neg_num, Int.natAbs_neg,
      Rat.neg_den]
  · rw [neg_zero, roundRat_zero, neg_zero]
  · rw [roundRat, roundRat, if_pos (by linarith), if_neg (by linarith), Rat.neg_num,
      Int.natAbs_neg, Rat.neg_den]

/-- It does not matter as which quotient a number is given. -/
theorem rounded_eq_roundRat {num den : Nat} (hden : 0 < den) :
    rounded num den = roundRat (num / den) := by
  have hnonneg : (0 : ℚ) ≤ num / den := div_nonneg (Nat.cast_nonneg _) (Nat.cast_nonneg _)
  have hquot := abs_num_div_den (num / den)
  rw [abs_of_nonneg hnonneg] at hquot
  rw [roundRat, if_neg (not_lt.mpr hnonneg)]
  exact le_antisymm (rounded_mono hden (Rat.den_pos _) hquot.ge)
    (rounded_mono (Rat.den_pos _) hden hquot.le)

/-- What has 53 digits is not rounded. -/
theorem roundRat_eq_self {m : Nat} {e : Int} (hm : m < pow2 53) (he : -1074 ≤ e)
    (h : |q| = m * 2 ^ e) : roundRat q = q := by
  have hself : rounded q.num.natAbs q.den = |q| := by
    rcases Nat.eq_zero_or_pos q.num.natAbs with hzero | hnum
    · rw [hzero, rounded_zero]
      obtain rfl := Rat.num_eq_zero.mp (Int.natAbs_eq_zero.mp hzero)
      exact abs_zero.symm
    · rw [rounded_eq_self hnum q.den_pos hm he ((abs_num_div_den q).trans h), h]
  rw [roundRat, hself]
  split_ifs with hneg
  · rw [abs_of_neg hneg, neg_neg]
  · exact abs_of_nonneg (not_lt.mp hneg)

/-- Of an integer it makes an integer. -/
theorem roundRat_intCast (n : Int) : roundRat n = roundInt n := by
  have hone : rounded n.natAbs 1 = roundNat n.natAbs := by
    rcases Nat.eq_zero_or_pos n.natAbs with h | h
    · rw [h, rounded_zero, roundNat_zero, Nat.cast_zero]
    · exact rounded_one h
  rw [roundRat, Rat.num_intCast, Rat.den_intCast, hone, roundInt, signed]
  simp only [Int.cast_lt_zero, decide_eq_true_eq]
  split_ifs <;> simp

theorem roundRat_eq_intCast {n : Int} (h : n.natAbs ≤ 2 ^ 53) : roundRat n = n := by
  rw [roundRat_intCast, roundInt_of_isShort (isShort_of_natAbs_le h)]

/-- Beyond 53 digits no integer is rounded to one of fewer. -/
theorem natAbs_le_of_natAbs_roundInt {n : Int} (h : (roundInt n).natAbs < 2 ^ 53) :
    n.natAbs ≤ 2 ^ 53 := by
  by_contra hlarge
  have hquot : ((pow2 53 : Nat) / (1 : Nat) : ℚ) ≤ n.natAbs / (1 : Nat) :=
    div_le_div_of_nonneg_right (Nat.cast_le.mpr (not_le.mp hlarge).le) (Nat.cast_nonneg _)
  have hrounded := rounded_mono Nat.one_pos Nat.one_pos hquot
  rw [rounded_one (Nat.two_pow_pos 53), rounded_one (by omega),
    roundNat_eq_self (m := 1) (k := 53) (by decide) (Nat.one_mul _).symm, Nat.cast_le,
    ← natAbs_roundInt] at hrounded
  exact absurd h (not_lt.mpr hrounded)

/-- Below a power of two, rounding changes nothing but what lies beyond 53 digits. -/
theorem abs_sub_roundRat_le {k : Int} (hk : -1021 ≤ k) (h : |q| < 2 ^ k) :
    |q - roundRat q| ≤ 2 ^ (k - 54) := by
  have hclose : |(|q| - rounded q.num.natAbs q.den)| ≤ 2 ^ (k - 54) := by
    rcases Nat.eq_zero_or_pos q.num.natAbs with hzero | hnum
    · obtain rfl := Rat.num_eq_zero.mp (Int.natAbs_eq_zero.mp hzero)
      rw [hzero, rounded_zero, abs_zero, sub_zero, abs_zero]
      exact (zpow_pos two_pos _).le
    · have hgrid := gridExponent_le_of_lt hnum q.den_pos (k := k - 53) (by omega)
        (by rwa [abs_num_div_den, add_sub_cancel])
      rw [← abs_num_div_den q]
      refine (abs_rounded_sub_le _ q.den_pos).trans ?_
      rw [div_le_iff₀ two_pos, ← zpow_add_one₀ two_ne_zero]
      exact zpow_le_zpow_right₀ one_le_two (by omega)
  rw [roundRat]
  split_ifs with hneg
  · rwa [abs_of_neg hneg, ← abs_neg, neg_sub, sub_neg_eq_add, add_comm, ← sub_neg_eq_add] at hclose
  · rwa [abs_of_nonneg (not_lt.mp hneg)] at hclose

end Round

/-! ## Rounded operations -/

section Operations

variable {x y : Binary64} {p q : ℚ}

theorem signed_cast (s : Bool) (n : Nat) : (signed s n : ℚ) = (if s then -1 else 1) * n := by
  cases s <;> simp [signed]

theorem abs_signed_mul (s : Bool) (m : Nat) (e : Int) : |(signed s m * 2 ^ e : ℚ)| = m * 2 ^ e := by
  have hnonneg : (0 : ℚ) ≤ m * 2 ^ e := mul_nonneg (Nat.cast_nonneg m) (zpow_pos two_pos e).le
  rw [signed_cast, mul_assoc, abs_mul, abs_of_nonneg hnonneg]
  cases s with
  | true => simp
  | false => simp

/-- A quotient is rounded, or out of range. -/
theorem ofRatio_roundRat {s : Bool} {num den : Nat} (hden : 0 < den)
    (hq : (if s then -1 else 1) * (num / den : ℚ) = q) :
    ofRatio s num den = infinite s ∨ (ofRatio s num den).place = Line.at (roundRat q) := by
  rcases Nat.eq_zero_or_pos num with rfl | hnum
  · have hzero : q = 0 := by
      rw [← hq, Nat.cast_zero, zero_div, mul_zero]
    rw [hzero, roundRat_zero]
    exact .inr (place_zero s)
  · refine (ofRatio_place s hnum).imp_right fun h => h.trans ?_
    rw [rounded_eq_roundRat hden, ← hq]
    cases s with
    | true => simp only [if_true, neg_mul, one_mul, roundRat_neg]
    | false => simp only [Bool.false_eq_true, if_false, one_mul]

theorem ofRatio_place_eq_roundRat {s : Bool} {num den : Nat} (hden : 0 < den)
    (hq : (if s then -1 else 1) * (num / den : ℚ) = q) (h : |q| < overflowStart) :
    (ofRatio s num den).place = Line.at (roundRat q) := by
  refine (ofRatio_roundRat hden hq).resolve_left fun hinfinite => ?_
  have hden' : (0 : ℚ) < den := Nat.cast_pos.mpr hden
  have habs : |q| = num / den := by
    have hnonneg : (0 : ℚ) ≤ num / den := div_nonneg (Nat.cast_nonneg _) hden'.le
    rw [← hq, abs_mul, abs_of_nonneg hnonneg]
    cases s <;> simp
  rw [habs, div_lt_iff₀ hden', ← Nat.cast_mul, Nat.cast_lt, Nat.mul_comm] at h
  have hfinite := (ofRatio_isFinite_iff (s := s) hden).mpr h
  rw [hinfinite] at hfinite
  cases hfinite

theorem signed_onGrid_eq {s : Bool} {m : Nat} {e : Int} (hq : (signed s m * 2 ^ e : ℚ) = q) :
    (if s then -1 else 1) * ((onGrid m 1 (-e)).1 / (onGrid m 1 (-e)).2 : ℚ) = q := by
  rw [onGrid_dyadic, ← hq, signed_cast, mul_assoc]

theorem ofDyadic_place_eq_roundRat {s : Bool} {m : Nat} {e : Int}
    (hq : (signed s m * 2 ^ e : ℚ) = q) (h : |q| < overflowStart) :
    (ofDyadic s m e).place = Line.at (roundRat q) :=
  ofRatio_place_eq_roundRat (onGrid_pos m (-e) Nat.one_pos) (signed_onGrid_eq hq) h

theorem signed_mul_signed (s t : Bool) (m n : Nat) (d e : Int) :
    (signed (s != t) (m * n) * 2 ^ (d + e) : ℚ) = signed s m * 2 ^ d * (signed t n * 2 ^ e) := by
  rw [signed_cast, signed_cast, signed_cast, zpow_add₀ two_ne_zero, Nat.cast_mul]
  cases s <;> cases t <;> simp <;> ring

/-- A product is rounded, or out of range. -/
theorem mul_roundRat (hx : x.place = Line.at p) (hy : y.place = Line.at q) :
    (∃ s, x.mul y = infinite s) ∨ (x.mul y).place = Line.at (roundRat (p * q)) := by
  obtain ⟨s, m, d, hm, rfl, rfl⟩ := exists_of_place hx
  obtain ⟨t, n, e, hn, rfl, rfl⟩ := exists_of_place hy
  exact (ofRatio_roundRat (onGrid_pos _ _ Nat.one_pos)
    (signed_onGrid_eq (signed_mul_signed s t m n d e))).imp_left fun h => ⟨s != t, h⟩

theorem mul_place (hx : x.place = Line.at p) (hy : y.place = Line.at q)
    (h : |p * q| < overflowStart) : (x.mul y).place = Line.at (roundRat (p * q)) := by
  obtain ⟨s, m, d, hm, rfl, rfl⟩ := exists_of_place hx
  obtain ⟨t, n, e, hn, rfl, rfl⟩ := exists_of_place hy
  exact ofDyadic_place_eq_roundRat (signed_mul_signed s t m n d e) h

theorem add_place (hx : x.place = Line.at p) (hy : y.place = Line.at q)
    (h : |p + q| < overflowStart) : (x.add y).place = Line.at (roundRat (p + q)) := by
  obtain ⟨s, m, d, hm, rfl, hp⟩ := exists_of_place hx
  obtain ⟨t, n, e, hn, rfl, hq⟩ := exists_of_place hy
  have hsum : ((signed s (refine m d (min d e)) + signed t (refine n e (min d e)) : Int) *
      2 ^ min d e : ℚ) = p + q := by
    rw [Int.cast_add, add_mul, signed_mul_zpow (refine_value (min_le_left d e)),
      signed_mul_zpow (refine_value (min_le_right d e)), hp, hq]
  rw [add]
  split
  · next hzero =>
    rw [hzero, Int.cast_zero, zero_mul] at hsum
    rw [← hsum, roundRat_zero]
    exact place_zero _
  · refine ofDyadic_place_eq_roundRat ?_ h
    rw [signed_natAbs, hsum]

/-- A binary number is left alone. -/
theorem roundRat_of_place (h : x.place = Line.at q) : roundRat q = q := by
  obtain ⟨s, m, e, hm, rfl, rfl⟩ := exists_of_place h
  exact roundRat_eq_self hm.1 hm.2.1 (abs_signed_mul s m e)

theorem abs_place_lt (h : x.place = Line.at q) : |q| < overflowStart := by
  obtain ⟨s, m, e, hm, rfl, rfl⟩ := exists_of_place h
  exact (abs_signed_mul s m e).trans_lt (lt_overflowStart hm.1 hm.2.2.1)

theorem natAbs_lt_overflowStart {n : Int} (h : n.natAbs ≤ 2 ^ 53) : n.natAbs < overflowStart :=
  h.trans_lt (two_pow_lt_overflowStart (by decide))

theorem abs_intCast_lt_overflowStart {n : Int} (h : n.natAbs ≤ 2 ^ 53) :
    |(n : ℚ)| < overflowStart := by
  rw [← Int.cast_abs, Int.abs_eq_natAbs, Int.cast_natCast]
  exact Nat.cast_lt.mpr (natAbs_lt_overflowStart h)

theorem ofInt_place_of_natAbs_le {n : Int} (h : n.natAbs ≤ 2 ^ 53) :
    (ofInt n).place = Line.at n := by
  rw [ofInt_place (natAbs_lt_overflowStart h), roundInt_of_isShort (isShort_of_natAbs_le h)]

theorem place_thousand : (ofInt 1000).place = Line.at 1000 :=
  ofInt_place_of_natAbs_le (n := 1000) (by decide)

theorem ofIntRatio_place {n : Int} {den : Nat} (hden : 0 < den)
    (h : |(n / den : ℚ)| < overflowStart) :
    (ofIntRatio n den).place = Line.at (roundRat (n / den)) := by
  refine ofRatio_place_eq_roundRat hden ?_ h
  rw [← mul_div_assoc, ← signed_cast, signed_natAbs]

end Operations

end NoteQuery.Binary64
