/-
Integers as binary numbers.

A quotient with no more than 53 binary digits is not changed by rounding (`ofRatio_place_eq`).  An
integer in range becomes the multiple nearest to it of a power of two (`ofInt_place`), which is
the integer itself exactly when it has so few digits (`roundInt_eq_self_iff`).
-/
import NoteQuery.Proofs.Differences
import Mathlib.Data.Rat.Floor

namespace NoteQuery.Binary64

/-! ## What is not rounded -/

section Exact

variable {num den m : Nat} {e : Int} {s : Bool}

/-- There is only one grid on which a quotient has 53 digits. -/
theorem gridExponent_eq (hnum : 0 < num) (hden : 0 < den) (he : -1074 ≤ e)
    (hlow : (2 ^ (52 + e) : ℚ) ≤ num / den) (hhigh : (num / den : ℚ) < 2 ^ (53 + e)) :
    gridExponent num den = e := by
  obtain ⟨-, hhigh', hlow'⟩ := gridExponent_spec hnum hden
  have hle := (zpow_lt_zpow_iff_right₀ one_lt_two).mp (hlow.trans_lt hhigh')
  rcases hlow' with hlow' | hlow'
  · have hge := (zpow_lt_zpow_iff_right₀ one_lt_two).mp (hlow'.trans_lt hhigh)
    omega
  · omega

theorem rounded_eq_self (hnum : 0 < num) (hden : 0 < den) (hm : m < pow2 53) (he : -1074 ≤ e)
    (h : (num / den : ℚ) = m * 2 ^ e) : rounded num den = m * 2 ^ e := by
  have hpos := onGrid_pos num (gridExponent num den) hden
  obtain ⟨k, hk⟩ := exists_steps m (gridExponent_le hnum hden hm he h.le)
  have hnearest : nearest (onGrid num den (gridExponent num den)).1
      (onGrid num den (gridExponent num den)).2 = k := by
    apply le_antisymm
    · exact nearest_le ((onGrid_le_iff hden).mpr (h.trans hk.symm).le)
    · exact le_nearest hpos ((le_onGrid_iff hden).mpr (hk.trans h.symm).le)
  rw [rounded, hnearest, hk]

theorem lt_overflowStart (hm : m < pow2 53) (he : e ≤ 971) : (m * 2 ^ e : ℚ) < overflowStart := by
  have hm' : (m : ℚ) ≤ 2 ^ 53 - 1 := by
    have hle : m + 1 ≤ 2 ^ 53 := hm
    rw [le_sub_iff_add_le]
    exact_mod_cast hle
  have hstep : (0 : ℚ) < 2 ^ (970 : Int) := zpow_pos two_pos _
  calc (m * 2 ^ e : ℚ) ≤ (2 ^ 53 - 1) * 2 ^ (971 : Int) :=
        mul_le_mul hm' (zpow_le_zpow_right₀ one_le_two he) (zpow_pos two_pos e).le (by norm_num)
    _ = (2 ^ 54 - 2) * 2 ^ (970 : Int) := by
        rw [show (971 : Int) = 1 + 970 from rfl, zpow_add₀ two_ne_zero, zpow_one]
        ring
    _ < (2 ^ 54 - 1) * 2 ^ (970 : Int) := by
        gcongr
        norm_num
    _ = overflowStart := overflowStart_cast.symm

theorem ofRatio_place_of_isFinite (hnum : 0 < num) (hfinite : (ofRatio s num den).isFinite) :
    (ofRatio s num den).place = Line.at ((if s then -1 else 1) * rounded num den) := by
  rcases ofRatio_place s hnum with h | h
  · rw [h] at hfinite
    cases hfinite
  · exact h

theorem place_zero (s : Bool) : (zero s).place = Line.at 0 := by
  cases s with
  | true => simp [zero, place, signed]
  | false => simp [zero, place, signed]

/-- A quotient of 53 digits in range is a binary number. -/
theorem ofRatio_place_eq (hden : 0 < den) (hm : m < pow2 53) (he : -1074 ≤ e) (he' : e ≤ 971)
    (h : (num / den : ℚ) = m * 2 ^ e) :
    (ofRatio s num den).place = Line.at (signed s m * 2 ^ e) := by
  have hden' : (0 : ℚ) < den := Nat.cast_pos.mpr hden
  rcases Nat.eq_zero_or_pos num with rfl | hnum
  · have hzero : (m : ℚ) = 0 := by
      rw [Nat.cast_zero, zero_div] at h
      exact (mul_eq_zero_iff_right (zpow_pos two_pos e).ne').mp h.symm
    rw [Nat.cast_eq_zero.mp hzero]
    have hsigned : signed s 0 = 0 := by
      cases s with
      | true => rfl
      | false => rfl
    rw [hsigned, Int.cast_zero, zero_mul]
    exact place_zero s
  · have hfinite : (ofRatio s num den).isFinite := by
      have hlt := h.trans_lt (lt_overflowStart hm he')
      rw [div_lt_iff₀ hden', ← Nat.cast_mul, Nat.cast_lt, Nat.mul_comm] at hlt
      exact (ofRatio_isFinite_iff hden).mpr hlt
    rw [ofRatio_place_of_isFinite hnum hfinite, rounded_eq_self hnum hden hm he h]
    congr 1
    cases s with
    | true => simp [signed]
    | false => simp [signed]

theorem ofDyadic_place_eq (hm : m < pow2 53) (he : -1074 ≤ e) (he' : e ≤ 971) :
    (ofDyadic s m e).place = Line.at (signed s m * 2 ^ e) :=
  ofRatio_place_eq (onGrid_pos m (-e) Nat.one_pos) hm he he' (onGrid_dyadic m e)

end Exact

/-! ## The nearest binary number to an integer -/

/-- The step between neighbours of 53 digits at an integer; it is one below 2⁵³. -/
def stepAt (n : Nat) : Nat :=
  pow2 (n.log2 - 52)

/-- The multiple of that step nearest to the integer, on a tie the even one. -/
def roundNat (n : Nat) : Nat :=
  nearest n (stepAt n) * stepAt n

/-- The integer to which one is rounded as a binary number. -/
def roundInt (n : Int) : Int :=
  signed (n < 0) (roundNat n.natAbs)

section Naturals

variable {n m k : Nat}

theorem nearest_mul {den : Nat} (hden : 0 < den) : nearest (den * k) den = k :=
  le_antisymm (nearest_le le_rfl) (le_nearest hden le_rfl)

theorem gridExponent_one (hn : 0 < n) : gridExponent n 1 = n.log2 - 52 := by
  have hlow : 2 ^ n.log2 ≤ n := Nat.log2_self_le hn.ne'
  have hhigh : n < 2 ^ (n.log2 + 1) := Nat.lt_log2_self
  apply gridExponent_eq hn Nat.one_pos (by omega)
  · rw [Nat.cast_one, div_one, show (52 : Int) + (n.log2 - 52) = n.log2 by omega, zpow_natCast]
    exact_mod_cast hlow
  · rw [Nat.cast_one, div_one, show (53 : Int) + (n.log2 - 52) = (n.log2 + 1 : Nat) by omega,
      zpow_natCast]
    exact_mod_cast hhigh

theorem rounded_one (hn : 0 < n) : rounded n 1 = roundNat n := by
  rcases Nat.le_total n.log2 52 with h | h
  · have hlt : n < pow2 53 := (Nat.log2_lt hn.ne').mp (by omega)
    have hstep : stepAt n = 1 := by
      rw [stepAt, Nat.sub_eq_zero_of_le h]
    have hround : roundNat n = n := by
      have hnearest := @nearest_mul n 1 Nat.one_pos
      rw [Nat.one_mul] at hnearest
      rw [roundNat, hstep, hnearest, Nat.mul_one]
    have hself : rounded n 1 = n * 2 ^ (0 : Int) := by
      refine rounded_eq_self hn Nat.one_pos hlt (by norm_num) ?_
      simp
    rw [hself, hround, zpow_zero, mul_one]
  · obtain ⟨k, hk⟩ := Nat.exists_eq_add_of_le h
    have hexp : gridExponent n 1 = k := by
      have := gridExponent_one hn
      omega
    have hstep : stepAt n = pow2 k := by
      rw [stepAt, hk, Nat.add_sub_cancel_left]
    have hgrid : onGrid n 1 k = (n, pow2 k) := by
      simp [onGrid]
    rw [rounded, hexp, hgrid, roundNat, hstep, Nat.cast_mul, zpow_natCast, pow2, Nat.pow_eq,
      Nat.cast_pow, Nat.cast_ofNat]

theorem roundNat_zero : roundNat 0 = 0 := by
  rw [roundNat, nearest, Nat.zero_div, Nat.zero_mod]
  simp

/-- What has no more than 53 digits before zeros is not rounded. -/
theorem roundNat_eq_self (hm : m < pow2 53) (h : n = m * pow2 k) : roundNat n = n := by
  rcases Nat.eq_zero_or_pos n with rfl | hn
  · exact roundNat_zero
  have hvalue : ((n : Nat) : ℚ) = m * 2 ^ (k : Int) := by
    rw [h, Nat.cast_mul, zpow_natCast, pow2, Nat.pow_eq, Nat.cast_pow, Nat.cast_ofNat]
  have hself : rounded n 1 = m * 2 ^ (k : Int) := by
    refine rounded_eq_self hn Nat.one_pos hm (by omega) ?_
    rw [Nat.cast_one, div_one, hvalue]
  rw [rounded_one hn, ← hvalue] at hself
  exact_mod_cast hself

/-- The outcome of rounding has no more than 53 digits before zeros. -/
theorem exists_roundNat (n : Nat) : ∃ m k, m < pow2 53 ∧ roundNat n = m * pow2 k := by
  have hle : nearest n (stepAt n) ≤ pow2 53 := by
    have hlt : n < 2 ^ (n.log2 + 1) := Nat.lt_log2_self
    refine nearest_le (hlt.le.trans ?_)
    rw [stepAt, pow2, pow2, Nat.pow_eq, Nat.pow_eq, ← pow_add]
    exact pow_le_pow_right₀ one_le_two (by omega)
  rcases Nat.lt_or_eq_of_le hle with hlt | heq
  · exact ⟨_, _, hlt, rfl⟩
  · refine ⟨pow2 52, n.log2 - 52 + 1, by decide, ?_⟩
    rw [roundNat, heq, stepAt, show pow2 53 = pow2 52 * 2 from rfl, Nat.mul_assoc]
    congr 1
    rw [pow2, pow2, Nat.pow_eq, Nat.pow_eq, pow_succ, Nat.mul_comm]

theorem roundNat_pos (hn : 0 < n) : 0 < roundNat n := by
  have hpos := rounded_pos hn Nat.one_pos (by
    rw [Nat.cast_one, div_one]
    calc (2 : ℚ) ^ (-1074 : Int) ≤ 2 ^ (0 : Int) := zpow_le_zpow_right₀ one_le_two (by norm_num)
      _ ≤ n := by rw [zpow_zero]; exact_mod_cast hn)
  rw [rounded_one hn] at hpos
  exact_mod_cast hpos

end Naturals

section Integers

variable {n : Int}

/-- The integer has no more than 53 binary digits before zeros. -/
def IsShort (n : Int) : Prop :=
  ∃ m k, m < pow2 53 ∧ n.natAbs = m * pow2 k

theorem natAbs_roundInt (n : Int) : (roundInt n).natAbs = roundNat n.natAbs :=
  natAbs_signed _ _

theorem isShort_roundInt (n : Int) : IsShort (roundInt n) := by
  rw [IsShort, natAbs_roundInt]
  exact exists_roundNat n.natAbs

theorem signed_natAbs (n : Int) : signed (n < 0) n.natAbs = n := by
  rw [signed]
  split
  · next h =>
    have h' : n < 0 := of_decide_eq_true h
    omega
  · next h =>
    have h' : ¬ n < 0 := fun hn => h (decide_eq_true hn)
    omega

theorem roundInt_of_isShort (h : IsShort n) : roundInt n = n := by
  obtain ⟨m, k, hm, hk⟩ := h
  rw [roundInt, roundNat_eq_self hm hk, signed_natAbs]

/-- The integers of few digits are those that are not rounded. -/
theorem roundInt_eq_self_iff : roundInt n = n ↔ IsShort n :=
  ⟨fun h => h ▸ isShort_roundInt n, roundInt_of_isShort⟩

theorem isShort_of_natAbs_le (h : n.natAbs ≤ 2 ^ 53) : IsShort n := by
  rcases Nat.lt_or_eq_of_le h with hlt | heq
  · exact ⟨n.natAbs, 0, hlt, (Nat.mul_one _).symm⟩
  · exact ⟨1, 53, by decide, heq.trans (Nat.one_mul _).symm⟩

theorem roundInt_ne_zero (h : n ≠ 0) : roundInt n ≠ 0 := by
  rw [← Int.natAbs_pos, natAbs_roundInt]
  exact roundNat_pos (Int.natAbs_pos.mpr h)

/-- An integer in range becomes the binary number with the value to which it is rounded. -/
theorem ofInt_place (hn : n.natAbs < overflowStart) : (ofInt n).place = Line.at (roundInt n) := by
  have hfinite := ofInt_isFinite_iff.mpr hn
  rcases lt_trichotomy n 0 with h | rfl | h
  · rw [ofInt_place_of_neg hfinite h, rounded_one (Int.natAbs_pos.mpr h.ne), roundInt,
      decide_eq_true h]
    simp [signed]
  · rw [ofInt_zero_place]
    simp [roundInt, roundNat_zero, signed]
  · rw [ofInt_place_of_pos hfinite h, rounded_one (Int.natAbs_pos.mpr h.ne'), roundInt,
      decide_eq_false (not_lt.mpr h.le)]
    simp [signed]

end Integers

/-! ## Integers next to a number -/

section Next

variable {x : Binary64} {q : ℚ} {n : Int}

theorem exists_of_place (h : x.place = Line.at q) :
    ∃ s m e, ∃ hm : Canonical m e, x = finite s m e hm ∧ (signed s m * 2 ^ e : ℚ) = q := by
  cases x with
  | nan => exact absurd h.symm (Line.at_ne_bot q)
  | infinite s =>
    cases s with
    | true => exact absurd h.symm (Line.at_ne_bot q)
    | false => exact absurd h.symm (Line.at_ne_top q)
  | finite s m e hm => exact ⟨s, m, e, hm, rfl, Line.at_strictMono.injective h⟩

theorem isNan_of_place (h : x.place = Line.at q) : x.isNan = false := by
  obtain ⟨s, m, e, hm, rfl, -⟩ := exists_of_place h
  rfl

theorem signed_mul (s : Bool) (m n : Nat) : signed s (m * n) = signed s m * n := by
  cases s with
  | true => simp [signed]
  | false => simp [signed]

theorem apply_mul (direction : Direction) (s : Bool) {k den : Nat} (hden : 0 < den) :
    direction.apply s (den * k) den = k := by
  cases direction with
  | toEven => exact nearest_mul hden
  | _ => simp [Direction.apply, hden]

theorem signed_apply_down (s : Bool) (num : Nat) {den : Nat} (hden : 0 < den) :
    signed s (Direction.down.apply s num den) = signed s num / (den : Int) := by
  cases s with
  | false => simp [signed, Direction.apply]
  | true =>
    have hsign : (den : Int).sign = 1 := Int.sign_eq_one_of_pos (by exact_mod_cast hden)
    simp only [signed, Direction.apply, if_true, Int.neg_ediv, hsign, Int.natCast_dvd_natCast,
      Nat.dvd_iff_mod_eq_zero, Nat.cast_add, Nat.cast_ite, Nat.cast_zero, Nat.cast_one,
      Int.natCast_ediv]
    ring

/-- Downwards stands the floor of the value. -/
theorem toInt?_down (h : x.place = Line.at q) : x.toInt? .down = some ⌊q⌋ := by
  obtain ⟨s, m, e, hm, rfl, rfl⟩ := exists_of_place h
  rw [signed_onGrid, Rat.floor_intCast_div_natCast, toInt?, ← signed_apply_down]
  exact onGrid_pos m (-e) Nat.one_pos

/-- On its own grid an integer is a quotient that leaves nothing. -/
theorem exists_grid_of_place (h : x.place = Line.at n) :
    ∃ s m e, ∃ hm : Canonical m e, x = finite s m e hm ∧
      ∃ den, 0 < den ∧ onGrid m 1 (-e) = (den * n.natAbs, den) ∧ signed s n.natAbs = n := by
  obtain ⟨s, m, e, hm, rfl, hvalue⟩ := exists_of_place h
  rw [signed_onGrid] at hvalue
  have hpos := onGrid_pos m (-e) Nat.one_pos
  refine ⟨s, m, e, hm, rfl, ?_⟩
  generalize onGrid m 1 (-e) = grid at hvalue hpos
  obtain ⟨num, den⟩ := grid
  dsimp only at hvalue hpos
  have hpos' : (den : ℚ) ≠ 0 := Nat.cast_ne_zero.mpr hpos.ne'
  have hnum : signed s num = n * den := by
    rw [div_eq_iff hpos'] at hvalue
    exact_mod_cast hvalue
  have habs : num = den * n.natAbs := by
    rw [← natAbs_signed s num, hnum, Int.natAbs_mul, Int.natAbs_natCast, Nat.mul_comm]
  rw [habs, Nat.mul_comm, signed_mul] at hnum
  exact ⟨den, hpos, by rw [habs], mul_right_cancel₀ (Int.natCast_ne_zero.mpr hpos.ne') hnum⟩

/-- An integer stands next to itself in every direction. -/
theorem toInt?_of_place (h : x.place = Line.at n) (direction : Direction) :
    x.toInt? direction = some n := by
  obtain ⟨s, m, e, hm, rfl, den, hpos, hgrid, hsigned⟩ := exists_grid_of_place h
  rw [toInt?, hgrid]
  dsimp only
  rw [apply_mul direction s hpos, hsigned]

theorem isInteger_of_place (h : x.place = Line.at n) : x.isInteger = true := by
  obtain ⟨s, m, e, hm, rfl, den, -, hgrid, -⟩ := exists_grid_of_place h
  rw [isInteger, hgrid]
  exact decide_eq_true (Nat.mul_mod_right den n.natAbs)

end Next

end NoteQuery.Binary64
