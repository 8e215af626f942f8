/-
How large a rounded number is.

A quotient is rounded on the grid on which it has 53 digits (`gridExponent_spec`), so the outcome
is infinite exactly when the quotient reaches the place halfway between the largest number and
2¹⁰²⁴ (`ofRatio_isFinite_iff`); the tie goes to the even one of the two, which is out of range.
Rounding does not lead beyond a power of two, and from this the sums and products of numbers below
powers of two are finite, as they occur where moments are counted in binary numbers of seconds.
-/
import NoteQuery.Number.Binary64
import Mathlib.Algebra.Order.Field.Power
import Mathlib.Data.Rat.Cast.Order
import Mathlib.Tactic.FieldSimp
import Mathlib.Tactic.Linarith
import Mathlib.Tactic.Positivity
import Mathlib.Tactic.Ring

namespace NoteQuery.Binary64

/-! ## The nearest integer -/

section Nearest

variable {num den k : Nat}

theorem nearest_le (h : num ≤ den * k) : nearest num den ≤ k := by
  have hdiv := Nat.div_add_mod num den
  have hmul : den * (num / den) ≤ den * k := by omega
  unfold nearest
  rcases Nat.eq_zero_or_pos den with rfl | hden
  · simp only [Nat.div_zero, Nat.mod_zero, Nat.zero_mul] at *
    simp only [show num = 0 by omega, Nat.mul_zero, Nat.lt_irrefl, if_false, if_true]
    omega
  · have hq : num / den ≤ k := Nat.le_of_mul_le_mul_left hmul hden
    rcases Nat.lt_or_eq_of_le hq with hlt | heq
    · dsimp only
      split_ifs <;> omega
    · rw [heq] at hdiv
      simp only [show num % den = 0 by omega, Nat.mul_zero, hden, if_true, heq, le_refl]

theorem le_nearest (hden : 0 < den) (h : den * k ≤ num) : k ≤ nearest num den := by
  have hq : k ≤ num / den := (Nat.le_div_iff_mul_le hden).mpr (by rwa [Nat.mul_comm])
  unfold nearest
  dsimp only
  split_ifs <;> omega

/-- A quotient is rounded to less than an even integer exactly when it is more than half a step
away from it. -/
theorem nearest_lt_iff (hden : 0 < den) (hk : 0 < k) (heven : k % 2 = 0) :
    nearest num den < k ↔ 2 * num + den < 2 * (den * k) := by
  have hdiv := Nat.div_add_mod num den
  have hmod := Nat.mod_lt num hden
  constructor
  · intro h
    by_contra hge
    have hq : k - 1 ≤ num / den := by
      refine (Nat.le_div_iff_mul_le hden).mpr ?_
      rw [Nat.mul_comm, Nat.mul_sub, Nat.mul_one]
      omega
    have hfloor : num / den = k - 1 := by
      have := le_nearest hden (Nat.mul_div_le num den)
      omega
    rw [hfloor, Nat.mul_sub, Nat.mul_one] at hdiv
    have hle : den ≤ den * k := Nat.le_mul_of_pos_right den hk
    unfold nearest at h
    simp only [hfloor] at h
    split_ifs at h <;> omega
  · intro h
    have hq : num / den < k := (Nat.div_lt_iff_lt_mul hden).mpr (by rw [Nat.mul_comm]; omega)
    unfold nearest
    dsimp only
    rcases Nat.lt_or_eq_of_le (Nat.le_sub_one_of_lt hq) with hlt | heq
    · split_ifs <;> omega
    · have hle : den ≤ den * k := Nat.le_mul_of_pos_right den hk
      rw [heq, Nat.mul_sub, Nat.mul_one] at hdiv
      rw [if_pos (by omega)]
      exact hq

end Nearest

/-! ## The grid -/

theorem pow2_mul_zpow (k : Nat) (e : Int) : ((pow2 k : Nat) : ℚ) * 2 ^ e = 2 ^ (k + e) := by
  rw [zpow_add₀ two_ne_zero, zpow_natCast, pow2, Nat.pow_eq, Nat.cast_pow, Nat.cast_ofNat]

section Grid

variable (num den : Nat) (e : Int)

theorem onGrid_pos {den : Nat} (hden : 0 < den) : 0 < (onGrid num den e).2 := by
  unfold onGrid
  split
  · exact Nat.mul_pos hden (Nat.two_pow_pos _)
  · exact hden

/-- The quotient on a grid, times the step of the grid, is the quotient. -/
theorem onGrid_ratio : ((onGrid num den e).1 / (onGrid num den e).2 : ℚ) = num / den / 2 ^ e := by
  unfold onGrid
  split
  · next h =>
    obtain ⟨n, rfl⟩ := Int.eq_ofNat_of_zero_le h
    simp only [Int.toNat_natCast, Nat.pow_eq, Nat.cast_mul, Nat.cast_pow, Nat.cast_ofNat,
      zpow_natCast, div_div]
  · next h =>
    obtain ⟨n, hn⟩ := Int.eq_ofNat_of_zero_le (show 0 ≤ -e by omega)
    obtain rfl : e = -n := by omega
    simp only [neg_neg, Int.toNat_natCast, Nat.pow_eq, Nat.cast_mul, Nat.cast_pow, Nat.cast_ofNat,
      zpow_neg, zpow_natCast, div_inv_eq_mul, div_mul_eq_mul_div]

/-- An integer times a power of two as a quotient of integers. -/
theorem onGrid_dyadic (m : Nat) (e : Int) :
    ((onGrid m 1 (-e)).1 / (onGrid m 1 (-e)).2 : ℚ) = m * 2 ^ e := by
  rw [onGrid_ratio, Nat.cast_one, div_one, zpow_neg, div_inv_eq_mul]

variable {num den e}

/-- On a grid the quotient stays below `k` exactly when it stays below `k` steps. -/
theorem onGrid_lt_iff {k : Nat} (hden : 0 < den) :
    (onGrid num den e).1 < (onGrid num den e).2 * k ↔ (num / den : ℚ) < k * 2 ^ e := by
  have hpos := onGrid_pos num e hden
  rw [← div_lt_iff₀ (zpow_pos two_pos e), ← onGrid_ratio, div_lt_iff₀ (Nat.cast_pos.mpr hpos),
    ← Nat.cast_mul, Nat.cast_lt, Nat.mul_comm]

theorem le_onGrid_iff {k : Nat} (hden : 0 < den) :
    (onGrid num den e).2 * k ≤ (onGrid num den e).1 ↔ (k * 2 ^ e : ℚ) ≤ num / den := by
  rw [← not_lt, ← not_lt, not_iff_not]
  exact onGrid_lt_iff hden

theorem onGrid_le_iff {k : Nat} (hden : 0 < den) :
    (onGrid num den e).1 ≤ (onGrid num den e).2 * k ↔ (num / den : ℚ) ≤ k * 2 ^ e := by
  have hpos := onGrid_pos num e hden
  rw [← div_le_iff₀ (zpow_pos two_pos e), ← onGrid_ratio, div_le_iff₀ (Nat.cast_pos.mpr hpos),
    ← Nat.cast_mul, Nat.cast_le, Nat.mul_comm]

/-- A quotient has 53 digits on its grid, unless the grid is the finest there is. -/
theorem gridExponent_spec (hnum : 0 < num) (hden : 0 < den) :
    -1074 ≤ gridExponent num den ∧ (num / den : ℚ) < 2 ^ (53 + gridExponent num den) ∧
      ((2 : ℚ) ^ (52 + gridExponent num den) ≤ num / den ∨ gridExponent num den = -1074) := by
  have hlow : (2 : ℚ) ^ ((num.log2 : Int) - den.log2 - 1) ≤ num / den := by
    have h1 : (2 : ℚ) ^ num.log2 ≤ num := by exact_mod_cast Nat.log2_self_le hnum.ne'
    have h2 : (den : ℚ) ≤ 2 ^ (den.log2 + 1) := by exact_mod_cast Nat.lt_log2_self.le
    rw [le_div_iff₀ (Nat.cast_pos.mpr hden)]
    calc (2 : ℚ) ^ ((num.log2 : Int) - den.log2 - 1) * den
        ≤ 2 ^ ((num.log2 : Int) - den.log2 - 1) * 2 ^ (den.log2 + 1) := by gcongr
      _ = 2 ^ num.log2 := by
          rw [← zpow_natCast, ← zpow_add₀ two_ne_zero, ← zpow_natCast]
          congr 1
          omega
      _ ≤ num := h1
  have hhigh : (num / den : ℚ) < 2 ^ ((num.log2 : Int) - den.log2 + 1) := by
    have h1 : (num : ℚ) < 2 ^ (num.log2 + 1) := by exact_mod_cast Nat.lt_log2_self
    have h2 : (2 : ℚ) ^ den.log2 ≤ den := by exact_mod_cast Nat.log2_self_le hden.ne'
    rw [div_lt_iff₀ (Nat.cast_pos.mpr hden)]
    calc (num : ℚ) < 2 ^ (num.log2 + 1) := h1
      _ = 2 ^ ((num.log2 : Int) - den.log2 + 1) * 2 ^ den.log2 := by
          rw [← zpow_natCast, ← zpow_natCast, ← zpow_add₀ two_ne_zero]
          congr 1
          omega
      _ ≤ 2 ^ ((num.log2 : Int) - den.log2 + 1) * den := by gcongr
  have hmono {i j : Int} (h : i ≤ j) : (2 : ℚ) ^ i ≤ 2 ^ j := zpow_le_zpow_right₀ one_le_two h
  unfold gridExponent
  simp only [Nat.div_lt_iff_lt_mul (onGrid_pos num _ hden), Nat.mul_comm (pow2 53),
    onGrid_lt_iff hden]
  have hsplit : ((53 : Nat) : Int) + ((num.log2 : Int) - den.log2 - 53) =
      (num.log2 : Int) - den.log2 := by
    omega
  simp only [pow2_mul_zpow, hsplit]
  refine ⟨le_max_right _ _, ?_, ?_⟩
  · split
    · next h => exact h.trans_le (hmono (by omega))
    · exact hhigh.trans_le (hmono (by omega))
  · rw [max_def]
    split
    · split
      · exact .inr rfl
      · exact .inl ((hmono (by omega)).trans hlow)
    · next h =>
      split
      · exact .inr rfl
      · exact .inl ((hmono (by omega)).trans (not_lt.mp h))

end Grid

/-! ## Out of range -/

/-- A number on its grid is finite unless its exponent is too large, or becomes so by a carry. -/
theorem pack_isFinite_iff {s : Bool} {m : Nat} {e : Int} (hm : m ≤ pow2 53) (he : -1074 ≤ e)
    (hgrid : pow2 52 ≤ m ∨ e = -1074) :
    (pack s m e).isFinite ↔ e < 971 ∨ e = 971 ∧ m < pow2 53 := by
  have h52 : pow2 52 = 4503599627370496 := rfl
  have h53 : pow2 53 = 9007199254740992 := rfl
  have hfinite (m : Nat) (e : Int) :
      (if h : Canonical m e then finite s m e h else infinite s).isFinite ↔ Canonical m e := by
    split
    · next h => exact ⟨fun _ => h, fun _ => rfl⟩
    · next h => exact ⟨nofun, fun h' => absurd h' h⟩
  unfold pack
  by_cases hcarry : m = pow2 53
  · rw [if_pos hcarry]
    refine (hfinite _ _).trans ?_
    unfold Canonical
    omega
  · rw [if_neg hcarry]
    refine (hfinite _ _).trans ?_
    unfold Canonical
    omega

/-- The least magnitude that is rounded to an infinity: halfway between the largest number and
2¹⁰²⁴. -/
def overflowStart : Nat :=
  (pow2 54 - 1) * pow2 970

theorem overflowStart_cast : (overflowStart : ℚ) = (2 ^ 54 - 1) * 2 ^ (970 : Int) := by
  have hle : 1 ≤ 2 ^ 54 := Nat.one_le_two_pow
  simp only [overflowStart, Nat.pow_eq, Nat.cast_mul, Nat.cast_sub hle, Nat.cast_pow,
    Nat.cast_ofNat, Nat.cast_one]
  rfl

theorem overflowStart_pos : 0 < overflowStart := by
  have hcast : (0 : ℚ) < overflowStart := by
    rw [overflowStart_cast]
    exact mul_pos (by norm_num) (zpow_pos two_pos _)
  exact_mod_cast hcast

theorem two_pow_lt_overflowStart {k : Nat} (hk : k ≤ 53 + 970) : 2 ^ k < overflowStart := by
  refine (pow_le_pow_right₀ one_le_two hk).trans_lt ?_
  have hlt (n : Nat) : 2 ^ (53 + n) < (pow2 54 - 1) * pow2 n := by
    rw [pow_add]
    exact Nat.mul_lt_mul_of_pos_right (by decide) (Nat.two_pow_pos n)
  exact hlt 970

theorem overflowStart_le_two_pow : overflowStart ≤ 2 ^ (54 + 970) := by
  have hle (n : Nat) : (pow2 54 - 1) * pow2 n ≤ 2 ^ (54 + n) := by
    rw [pow_add]
    exact Nat.mul_le_mul_right _ (by decide)
  exact hle 970

/-- With few twos taken out, what is left is still even. -/
theorem exists_even_mul_eq_overflowStart {s : Nat} (hs : s ≤ 969) :
    ∃ k, k % 2 = 0 ∧ k * pow2 s = overflowStart := by
  obtain ⟨d, hd⟩ := Nat.exists_eq_add_of_le' hs
  have hpow : pow2 (d + 1 + s) = pow2 (d + 1) * pow2 s := pow_add 2 (d + 1) s
  refine ⟨(pow2 54 - 1) * pow2 (d + 1), ?_, ?_⟩
  · rw [show pow2 (d + 1) = pow2 d * 2 from pow_succ 2 d, ← Nat.mul_assoc, Nat.mul_mod_left]
  · rw [Nat.mul_assoc, ← hpow, overflowStart, show d + 1 + s = 970 by omega]

/-- Every finite number is less than the end of the range, also on a finer grid. -/
theorem mul_pow2_lt {m exponent scale : Nat} (hm : m < pow2 53) (he : exponent ≤ 971 + scale) :
    m * pow2 exponent < overflowStart * pow2 scale := by
  have hlt (n : Nat) : (pow2 53 - 1) * pow2 (n + 1 + scale) <
      (pow2 54 - 1) * pow2 n * pow2 scale := by
    have hpow : pow2 (n + 1 + scale) = 2 * (pow2 n * pow2 scale) := by
      rw [pow2, pow2, pow2, Nat.pow_eq, Nat.pow_eq, Nat.pow_eq]
      ring
    rw [hpow, ← Nat.mul_assoc, Nat.mul_assoc (pow2 54 - 1)]
    refine Nat.mul_lt_mul_of_pos_right (by decide) ?_
    exact Nat.mul_pos (Nat.two_pow_pos n) (Nat.two_pow_pos scale)
  refine Nat.lt_of_le_of_lt ?_ (hlt 970)
  exact Nat.mul_le_mul (Nat.le_sub_one_of_lt hm) (Nat.pow_le_pow_right Nat.two_pos he)

/-- The tie before the carry, for a quotient `n / d` on a grid of twice the step. -/
theorem tie_border {n d : Nat} {q step : ℚ} (hd : 0 < d) (hstep : 0 < step)
    (hn : (n : ℚ) = q / (2 * step) * d) :
    2 * n + d < 2 * (d * pow2 53) ↔ q < (2 ^ 54 - 1) * step := by
  have hleft : ((2 * n + d : Nat) : ℚ) = (q / step + 1) * d := by
    rw [Nat.cast_add, Nat.cast_mul, hn]
    field_simp
    ring
  have hright : ((2 * (d * pow2 53) : Nat) : ℚ) = 2 ^ 54 * d := by
    simp only [pow2, Nat.pow_eq, Nat.cast_mul, Nat.cast_pow, Nat.cast_ofNat]
    ring
  rw [← Nat.cast_lt (α := ℚ), hleft, hright, mul_lt_mul_iff_left₀ (Nat.cast_pos.mpr hd),
    ← lt_sub_iff_add_lt, div_lt_iff₀ hstep]

section OutOfRange

variable {num den : Nat} {s : Bool}

theorem ofRatio_eq_pack (hnum : 0 < num) :
    ofRatio s num den = pack s (nearest (onGrid num den (gridExponent num den)).1
      (onGrid num den (gridExponent num den)).2) (gridExponent num den) :=
  if_neg hnum.ne'

/-- What is rounded on the grid is an integer of 53 digits, or that with a carry, or has fewer
digits on the finest grid. -/
theorem nearest_onGrid (hnum : 0 < num) (hden : 0 < den) :
    nearest (onGrid num den (gridExponent num den)).1 (onGrid num den (gridExponent num den)).2 ≤
        pow2 53 ∧
      (pow2 52 ≤ nearest (onGrid num den (gridExponent num den)).1
          (onGrid num den (gridExponent num den)).2 ∨ gridExponent num den = -1074) := by
  obtain ⟨-, hhigh, hlow⟩ := gridExponent_spec hnum hden
  have hpos := onGrid_pos num (gridExponent num den) hden
  have hlt := @onGrid_lt_iff num den (gridExponent num den) (pow2 53) hden
  have hle := @le_onGrid_iff num den (gridExponent num den) (pow2 52) hden
  rw [pow2_mul_zpow] at hlt hle
  exact ⟨nearest_le (hlt.mpr hhigh).le, hlow.imp_left fun h => le_nearest hpos (hle.mpr h)⟩

/-- A quotient is rounded to a finite number exactly when it stays below that magnitude. -/
theorem ofRatio_isFinite_iff (hden : 0 < den) :
    (ofRatio s num den).isFinite ↔ num < den * overflowStart := by
  have hquot : num < den * overflowStart ↔ (num / den : ℚ) < (2 ^ 54 - 1) * 2 ^ (970 : Int) := by
    rw [← overflowStart_cast, div_lt_iff₀ (Nat.cast_pos.mpr hden), ← Nat.cast_mul, Nat.cast_lt,
      Nat.mul_comm]
  rcases Nat.eq_zero_or_pos num with rfl | hnum
  · exact ⟨fun _ => Nat.mul_pos hden overflowStart_pos, fun _ => rfl⟩
  obtain ⟨hmin, hhigh, hlow⟩ := gridExponent_spec hnum hden
  obtain ⟨hround, hdigits⟩ := nearest_onGrid hnum hden
  have hpos := onGrid_pos num (gridExponent num den) hden
  have hratio := onGrid_ratio num den (gridExponent num den)
  rw [ofRatio_eq_pack hnum, pack_isFinite_iff hround hmin hdigits, hquot]
  generalize onGrid num den (gridExponent num den) = grid at hround hdigits hpos hratio ⊢
  have hmono {i j : Int} (h : i ≤ j) : (2 : ℚ) ^ i ≤ 2 ^ j := zpow_le_zpow_right₀ one_le_two h
  have hstep : (0 : ℚ) < 2 ^ (970 : Int) := zpow_pos two_pos _
  have hstart : (2 : ℚ) ^ (1023 : Int) ≤ (2 ^ 54 - 1) * 2 ^ (970 : Int) := by
    rw [show (1023 : Int) = 53 + 970 from rfl, zpow_add₀ two_ne_zero]
    gcongr
    norm_num
  have hend : (2 ^ 54 - 1) * 2 ^ (970 : Int) ≤ (2 : ℚ) ^ (1024 : Int) := by
    rw [show (1024 : Int) = 54 + 970 from rfl, zpow_add₀ two_ne_zero]
    gcongr
    norm_num
  rcases lt_trichotomy (gridExponent num den) 971 with hlt | heq | hgt
  · refine iff_of_true (.inl hlt) ?_
    exact (hhigh.trans_le (hmono (by omega))).trans_le hstart
  · -- On this grid the tie between the largest number and the carry is the border.
    have hdouble : (2 : ℚ) ^ (971 : Int) = 2 * 2 ^ (970 : Int) := by
      rw [show (971 : Int) = 1 + 970 from rfl, zpow_add₀ two_ne_zero, zpow_one]
    rw [heq, hdouble, div_eq_iff (Nat.cast_ne_zero.mpr hpos.ne')] at hratio
    have htie := @nearest_lt_iff grid.1 grid.2 (pow2 53) hpos (Nat.two_pow_pos _) (by decide)
    simp only [heq, Int.lt_irrefl, false_or, true_and, htie]
    exact tie_border hpos hstep hratio
  · refine iff_of_false (by omega) (not_lt.mpr ?_)
    rcases hlow with hlow | hlow
    · exact hend.trans ((hmono (by omega)).trans hlow)
    · omega

end OutOfRange

/-! ## Below powers of two -/

/-- The number is finite, and its magnitude is `2 ^ k` at most. -/
def Within (k : Nat) : Binary64 → Prop
  | .finite _ m e _ => (m * 2 ^ e : ℚ) ≤ 2 ^ k
  | _ => False

theorem Within.isFinite {k : Nat} {x : Binary64} (h : x.Within k) : x.isFinite := by
  cases x with
  | finite s m e he => rfl
  | _ => exact h.elim

/-- A number within a power of two has an integer next to it. -/
theorem Within.toInt? {k : Nat} {x : Binary64} (h : x.Within k) (direction : Direction) :
    ∃ n, x.toInt? direction = some n := by
  cases x with
  | finite s m e he => exact ⟨_, rfl⟩
  | _ => exact h.elim

theorem pack_within {s : Bool} {m k : Nat} {e : Int} (hfinite : (pack s m e).isFinite)
    (h : (m * 2 ^ e : ℚ) ≤ 2 ^ k) : (pack s m e).Within k := by
  unfold pack at hfinite ⊢
  by_cases hcarry : m = pow2 53
  · rw [if_pos hcarry] at hfinite ⊢
    dsimp only at hfinite ⊢
    split at hfinite
    · next hcanonical =>
      rw [dif_pos hcanonical]
      have hvalue : (pow2 52 * 2 ^ (e + 1) : ℚ) = m * 2 ^ e := by
        rw [hcarry, zpow_add_one₀ two_ne_zero, pow2, pow2]
        push_cast [Nat.pow_eq]
        ring
      exact hvalue.le.trans h
    · exact absurd hfinite nofun
  · rw [if_neg hcarry] at hfinite ⊢
    dsimp only at hfinite ⊢
    split at hfinite
    · next hcanonical =>
      rw [dif_pos hcanonical]
      exact h
    · exact absurd hfinite nofun

/-- Rounding does not lead beyond a power of two. -/
theorem ofRatio_within {s : Bool} {num den k : Nat} (hden : 0 < den) (hk : k < 1024)
    (h : (num / den : ℚ) ≤ 2 ^ k) : (ofRatio s num den).Within k := by
  have hfinite : (ofRatio s num den).isFinite := by
    have hstart : (2 : ℚ) ^ k < overflowStart := by
      exact_mod_cast two_pow_lt_overflowStart (k := k) (by omega)
    have hlt := h.trans_lt hstart
    rw [div_lt_iff₀ (Nat.cast_pos.mpr hden), ← Nat.cast_mul, Nat.cast_lt, Nat.mul_comm] at hlt
    exact (ofRatio_isFinite_iff hden).mpr hlt
  rcases Nat.eq_zero_or_pos num with rfl | hnum
  · show (0 * 2 ^ (-1074 : Int) : ℚ) ≤ 2 ^ k
    rw [zero_mul]
    positivity
  obtain ⟨hmin, hhigh, hlow⟩ := gridExponent_spec hnum hden
  have hexp : gridExponent num den ≤ k := by
    rcases hlow with hlow | hlow
    · have hle := hlow.trans h
      rw [← zpow_natCast, zpow_le_zpow_iff_right₀ one_lt_two] at hle
      omega
    · omega
  obtain ⟨j, hj⟩ := Int.eq_ofNat_of_zero_le (Int.sub_nonneg_of_le hexp)
  have hsteps : ((pow2 j : Nat) : ℚ) * 2 ^ gridExponent num den = 2 ^ k := by
    rw [pow2_mul_zpow, ← zpow_natCast]
    congr 1
    omega
  rw [ofRatio_eq_pack hnum] at hfinite ⊢
  refine pack_within hfinite (le_of_le_of_eq ?_ hsteps)
  have hle : nearest (onGrid num den (gridExponent num den)).1
      (onGrid num den (gridExponent num den)).2 ≤ pow2 j :=
    nearest_le ((onGrid_le_iff hden).mpr (h.trans hsteps.ge))
  exact mul_le_mul_of_nonneg_right (Nat.cast_le.mpr hle) (zpow_pos two_pos _).le

theorem ofInt_isFinite_iff {n : Int} : (ofInt n).isFinite ↔ n.natAbs < overflowStart := by
  rw [ofInt, ofRatio_isFinite_iff Nat.one_pos, Nat.one_mul]

theorem ofInt_within {n : Int} {k : Nat} (hk : k < 1024) (h : n.natAbs ≤ 2 ^ k) :
    (ofInt n).Within k := by
  refine ofRatio_within Nat.one_pos hk ?_
  rw [Nat.cast_one, div_one]
  exact_mod_cast h

theorem ofDyadic_within {s : Bool} {m k : Nat} {e : Int} (hk : k < 1024)
    (h : (m * 2 ^ e : ℚ) ≤ 2 ^ k) : (ofDyadic s m e).Within k :=
  ofRatio_within (onGrid_pos m (-e) Nat.one_pos) hk ((onGrid_dyadic m e).trans_le h)

theorem Within.mul {x y : Binary64} {j k : Nat} (hx : x.Within j) (hy : y.Within k)
    (hjk : j + k < 1024) : (x.mul y).Within (j + k) := by
  cases x with
  | finite s m d hd =>
    cases y with
    | finite t n e he =>
      refine ofDyadic_within hjk ?_
      have hx : (m * 2 ^ d : ℚ) ≤ 2 ^ j := hx
      have hy : (n * 2 ^ e : ℚ) ≤ 2 ^ k := hy
      calc ((m * n : Nat) * 2 ^ (d + e) : ℚ) = m * 2 ^ d * (n * 2 ^ e) := by
            rw [zpow_add₀ two_ne_zero, Nat.cast_mul]
            ring
        _ ≤ 2 ^ j * 2 ^ k := by gcongr
        _ = 2 ^ (j + k) := (pow_add 2 j k).symm
    | _ => exact hy.elim
  | _ => exact hx.elim

theorem refine_value {n : Nat} {coarse fine : Int} (h : fine ≤ coarse) :
    (refine n coarse fine : ℚ) * 2 ^ fine = n * 2 ^ coarse := by
  rw [refine, Nat.cast_mul, mul_assoc, pow2_mul_zpow]
  congr 2
  omega

theorem natAbs_signed (s : Bool) (n : Nat) : (signed s n).natAbs = n := by
  cases s with
  | true => exact Int.natAbs_neg n
  | false => rfl

theorem Within.add {x y : Binary64} {k : Nat} (hx : x.Within k) (hy : y.Within k)
    (hk : k + 1 < 1024) : (x.add y).Within (k + 1) := by
  cases x with
  | finite s m d hd =>
    cases y with
    | finite t n e he =>
      rw [Binary64.add]
      split
      · show (0 * 2 ^ (-1074 : Int) : ℚ) ≤ 2 ^ (k + 1)
        rw [zero_mul]
        positivity
      · refine ofDyadic_within hk ?_
        have hx : (m * 2 ^ d : ℚ) ≤ 2 ^ k := hx
        have hy : (n * 2 ^ e : ℚ) ≤ 2 ^ k := hy
        have habs : (signed s (refine m d (min d e)) + signed t (refine n e (min d e))).natAbs ≤
            refine m d (min d e) + refine n e (min d e) :=
          (Int.natAbs_add_le _ _).trans (by rw [natAbs_signed, natAbs_signed])
        calc ((signed s (refine m d (min d e)) + signed t (refine n e (min d e))).natAbs *
              2 ^ min d e : ℚ)
            ≤ (refine m d (min d e) + refine n e (min d e) : Nat) * 2 ^ min d e :=
              mul_le_mul_of_nonneg_right (Nat.cast_le.mpr habs) (zpow_pos two_pos _).le
          _ = m * 2 ^ d + n * 2 ^ e := by
              rw [Nat.cast_add, add_mul, refine_value (min_le_left d e),
                refine_value (min_le_right d e)]
          _ ≤ 2 ^ k + 2 ^ k := add_le_add hx hy
          _ = 2 ^ (k + 1) := by ring
    | _ => exact hy.elim
  | _ => exact hx.elim

/-- The integer nearest to a number does not lie beyond a power of two either. -/
theorem Within.natAbs_le {x : Binary64} {k : Nat} {n : Int} (hx : x.Within k)
    (hn : x.toInt? .toEven = some n) : n.natAbs ≤ 2 ^ k := by
  cases x with
  | finite s m e he =>
    cases hn
    rw [natAbs_signed]
    refine nearest_le ((onGrid_le_iff Nat.one_pos).mpr ?_)
    have hx : (m * 2 ^ e : ℚ) ≤ 2 ^ k := hx
    rw [Nat.cast_one, div_one, zpow_neg, ← div_eq_mul_inv, le_div_iff₀ (zpow_pos two_pos e)]
    exact_mod_cast hx
  | _ => cases hn

end NoteQuery.Binary64
