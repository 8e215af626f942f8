/-
Rounding integers half up.

A number is rounded by adding one half and taking the floor, and one half is a binary number.  To
a short integer up to 2⁵² it is added exactly; between there and 2⁵³ the sum is a tie between two
integers, of which the even one is taken, so odd integers become the next one; and beyond 2⁵³ the
half is lost (`floor_half`).  So an integer is rounded to itself exactly when it has few digits
and does not lie among those odd ones (`Expr.eval_rounding_methods`).
-/
import NoteQuery.Proofs.Remainders

namespace NoteQuery

open Binary64 (overflowStart roundInt IsShort)

namespace Binary64

/-! ## Ties and what is close -/

section Nearest

variable {num den k : Nat}

/-- Halfway between two integers the even one is taken. -/
theorem nearest_tie (hden : 0 < den) (h : 2 * num = (2 * k + 1) * den) :
    nearest num den = if k % 2 = 0 then k else k + 1 := by
  have hexpand : (2 * k + 1) * den = 2 * (den * k) + den := by ring
  have hquot : num / den = k := by
    rw [Nat.div_eq_iff hden, Nat.mul_comm k den]
    omega
  have hmod := Nat.div_add_mod num den
  rw [hquot] at hmod
  unfold nearest
  dsimp only
  rw [hquot, if_neg (by omega), if_neg (by omega)]

/-- Less than half a step away from an integer that is taken. -/
theorem nearest_close (hden : 0 < den) (hlow : 2 * (k * den) < 2 * num + den)
    (hhigh : 2 * num < 2 * (k * den) + den) : nearest num den = k := by
  have hmod := Nat.div_add_mod num den
  have hlt := Nat.mod_lt num hden
  rcases Nat.lt_or_ge num (k * den) with h | h
  · -- from below, the quotient is the integer before
    obtain ⟨j, rfl⟩ : ∃ j, k = j + 1 := Nat.exists_eq_succ_of_ne_zero (by rintro rfl; omega)
    have hexpand : (j + 1) * den = den * j + den := by ring
    have hquot : num / den = j := by
      rw [Nat.div_eq_iff hden, Nat.mul_comm j den]
      omega
    rw [hquot] at hmod
    unfold nearest
    dsimp only
    rw [hquot, if_neg (by omega), if_pos (by omega)]
  · have hcomm : k * den = den * k := Nat.mul_comm k den
    have hquot : num / den = k := by
      rw [Nat.div_eq_iff hden]
      omega
    rw [hquot] at hmod
    unfold nearest
    dsimp only
    rw [hquot, if_pos (by omega)]

end Nearest

/-! ## Halves -/

section Halves

variable {num den n k : Nat}

/-- The quotient is half of the integer. -/
theorem half_eq (hden : 0 < den) (h : 2 * num = n * den) : (num / den : ℚ) = n / 2 := by
  have hden' : (den : ℚ) ≠ 0 := Nat.cast_ne_zero.mpr hden.ne'
  rw [div_eq_div_iff hden' two_ne_zero, mul_comm]
  exact_mod_cast h

theorem rounded_half_fine (hn : 0 < n) (hden : 0 < den) (h : 2 * num = n * den)
    (hlt : n < pow2 53) : rounded num den = n / 2 := by
  have hnum : 0 < num := by
    have := Nat.mul_pos hn hden
    omega
  have hvalue : (n * 2 ^ (-1 : Int) : ℚ) = n / 2 := by
    rw [zpow_neg_one, div_eq_mul_inv]
  rw [rounded_eq_self hnum hden hlt (by norm_num) ((half_eq hden h).trans hvalue.symm), hvalue]

/-- Half of an integer of so many digits stands on the grid with that step. -/
theorem gridExponent_half {j : Nat} (hden : 0 < den) (h : 2 * num = n * den)
    (hlow : 2 ^ (53 + j) ≤ n) (hhigh : n < 2 ^ (54 + j)) : gridExponent num den = j := by
  have hnum : 0 < num := by
    have := Nat.mul_pos ((Nat.two_pow_pos _).trans_le hlow) hden
    omega
  apply gridExponent_eq hnum hden (by omega)
  · rw [half_eq hden h, le_div_iff₀ two_pos, ← zpow_add_one₀ two_ne_zero,
      show (52 : Int) + j + 1 = (53 + j : Nat) by omega, zpow_natCast]
    exact_mod_cast hlow
  · rw [half_eq hden h, div_lt_iff₀ two_pos, ← zpow_add_one₀ two_ne_zero,
      show (53 : Int) + j + 1 = (54 + j : Nat) by omega, zpow_natCast]
    exact_mod_cast hhigh

theorem rounded_half_tie (hden : 0 < den) (h : 2 * num = (2 * k + 1) * den)
    (hlow : 2 ^ 53 ≤ 2 * k + 1) (hhigh : 2 * k + 1 < 2 ^ 54) :
    rounded num den = (if k % 2 = 0 then k else k + 1 : Nat) := by
  have hexp : gridExponent num den = (0 : Nat) := gridExponent_half hden h hlow hhigh
  have hgrid : onGrid num den ((0 : Nat) : Int) = (num, den) := by
    simp [onGrid]
  rw [rounded, hexp, hgrid, nearest_tie hden h]
  simp

/-- A short integer with more digits than those is a multiple of a power of two. -/
theorem exists_multiple {m j : Nat} (hm : m < pow2 53) (h : 2 ^ (53 + j) ≤ m * pow2 k) :
    ∃ q, m * pow2 k = q * pow2 (j + 1) := by
  have hbound : m * pow2 k < 2 ^ (53 + k) := by
    rw [pow_add]
    exact Nat.mul_lt_mul_of_pos_right hm (Nat.two_pow_pos k)
  have hlt := (Nat.pow_lt_pow_iff_right one_lt_two).mp (h.trans_lt hbound)
  have hjk : j < k := by omega
  obtain ⟨i, rfl⟩ := Nat.exists_eq_add_of_le hjk
  refine ⟨m * pow2 i, ?_⟩
  rw [Nat.mul_assoc, pow2, pow2, pow2, Nat.pow_eq, Nat.pow_eq, Nat.pow_eq, ← pow_add,
    Nat.add_comm]

/-- One half is less than half of a step of two or more. -/
theorem nearest_half {q step : Nat} (hden : 0 < den) (hstep : 2 ≤ step) (h : 2 * num = n * den)
    (hnext : n = 2 * (q * step) + 1 ∨ n + 1 = 2 * (q * step)) : nearest num (den * step) = q := by
  have hproduct : q * (den * step) = q * step * den := by ring
  have hlarge : 2 * den ≤ den * step := by
    rw [Nat.mul_comm 2]
    exact Nat.mul_le_mul_left den hstep
  have hnum : 2 * num = 2 * (q * step * den) + den ∨ 2 * num + den = 2 * (q * step * den) := by
    refine hnext.imp (fun hnext => ?_) fun hnext => ?_
    · rw [h, hnext]
      ring
    · rw [h, ← Nat.mul_assoc, ← hnext]
      ring
  apply nearest_close (by omega)
  · omega
  · omega

/-- Beyond 2⁵³ a half more or less than a short integer is lost. -/
theorem rounded_half_coarse {m : Nat} (hden : 0 < den) (h : 2 * num = n * den)
    (hlow : 2 ^ 54 ≤ n) (hm : m < pow2 53) (hnext : n = 2 * (m * pow2 k) + 1 ∨
      n + 1 = 2 * (m * pow2 k)) : rounded num den = (m * pow2 k : Nat) := by
  have hn0 : n ≠ 0 := ((Nat.two_pow_pos 54).trans_le hlow).ne'
  obtain ⟨j, hj⟩ := Nat.exists_eq_add_of_le ((Nat.le_log2 hn0).mpr hlow)
  have hle : 2 ^ (54 + j) ≤ n := hj ▸ Nat.log2_self_le hn0
  have hlt : n < 2 ^ (54 + (j + 1)) := by
    have hlog : n < 2 ^ (n.log2 + 1) := Nat.lt_log2_self
    rwa [hj, Nat.add_assoc] at hlog
  have hexp : gridExponent num den = (j + 1 : Nat) :=
    gridExponent_half hden h (by rwa [show 53 + (j + 1) = 54 + j by omega]) hlt
  have hsteps : 2 ^ (53 + j) ≤ m * pow2 k := by
    have hdouble : 2 ^ (54 + j) = 2 * 2 ^ (53 + j) := by
      rw [show 54 + j = 53 + j + 1 by omega, pow_succ, Nat.mul_comm]
    omega
  obtain ⟨q, hq⟩ := exists_multiple hm hsteps
  rw [hq] at hnext ⊢
  have htwo : 2 ≤ pow2 (j + 1) := Nat.le_self_pow (Nat.succ_ne_zero j) 2
  have hgrid : onGrid num den ((j + 1 : Nat) : Int) = (num, den * pow2 (j + 1)) := by
    rw [onGrid, if_pos (by omega), Int.toNat_natCast]
  rw [rounded, hexp, hgrid, nearest_half hden htwo h hnext, Nat.cast_mul, zpow_natCast, pow2,
    Nat.pow_eq, Nat.cast_pow, Nat.cast_ofNat]

end Halves

/-! ## One half more -/

section OneHalf

variable {x : Binary64} {r : Int} {num den : Nat}

theorem even_of_isShort (h : IsShort r) (hr : 2 ^ 53 ≤ r.natAbs) : r % 2 = 0 := by
  obtain ⟨m, k, hm, hk⟩ := h
  obtain ⟨q, hq⟩ := exists_multiple hm (j := 0) (hr.trans_eq hk)
  rw [← hk, show pow2 (0 + 1) = 2 from rfl] at hq
  omega

/-- The floor of a short integer and one half, when the sum is rounded: odd integers between 2⁵²
and 2⁵³ become the next one. -/
theorem floor_half (hr : IsShort r) (hden : 0 < den) (h : 2 * num = (2 * r + 1).natAbs * den) :
    ⌊(if r < 0 then -1 else 1) * rounded num den⌋ =
      r + if r % 2 = 1 ∧ 2 ^ 52 < r.natAbs then 1 else 0 := by
  have heven := even_of_isShort hr
  obtain ⟨m, k, hm, hk⟩ := hr
  -- half of an odd integer `2 * n + 1`, where `n` is `r` or what lies one step before `-r`
  obtain ⟨n, hn⟩ : ∃ n, (2 * r + 1).natAbs = 2 * n + 1 := ⟨(2 * r + 1).natAbs / 2, by omega⟩
  rw [hn] at h
  have hsides : 0 ≤ r ∧ r = n ∨ r < 0 ∧ r = -(n + 1) := by omega
  rcases Nat.lt_or_ge (2 * n + 1) (2 ^ 53) with hfine | hfine
  · have hodd : ¬ (r % 2 = 1 ∧ 2 ^ 52 < r.natAbs) := by omega
    rw [rounded_half_fine (Nat.succ_pos _) hden h hfine, if_neg hodd, Int.add_zero,
      Int.floor_eq_iff]
    rcases hsides with ⟨hsign, rfl⟩ | ⟨hsign, rfl⟩
    · rw [if_neg (not_lt.mpr hsign)]
      push_cast
      constructor <;> linarith
    · rw [if_pos hsign]
      push_cast
      constructor <;> linarith
  rcases Nat.lt_or_ge (2 * n + 1) (2 ^ 54) with htie | hcoarse
  · rw [rounded_half_tie hden h hfine htie]
    rcases hsides with ⟨hsign, rfl⟩ | ⟨hsign, rfl⟩
    · rw [if_neg (not_lt.mpr hsign), one_mul, Int.floor_natCast]
      split_ifs <;> omega
    · rw [if_pos hsign, neg_one_mul, ← Int.cast_natCast, ← Int.cast_neg, Int.floor_intCast]
      split_ifs <;> omega
  · have hnext : 2 * n + 1 = 2 * (m * pow2 k) + 1 ∨ 2 * n + 1 + 1 = 2 * (m * pow2 k) := by omega
    rw [rounded_half_coarse hden h hcoarse hm hnext, ← hk]
    have hodd : ¬ (r % 2 = 1 ∧ 2 ^ 52 < r.natAbs) := by omega
    rw [if_neg hodd, Int.add_zero]
    rcases hsides with ⟨hsign, -⟩ | ⟨hsign, -⟩
    · rw [if_neg (not_lt.mpr hsign), one_mul, Int.floor_natCast]
      omega
    · rw [if_pos hsign, neg_one_mul, ← Int.cast_natCast, ← Int.cast_neg, Int.floor_intCast]
      omega

theorem place_half : (ofRatio false 1 2).place = Line.at (1 / 2) := by
  have hplace : (ofRatio false 1 2).place = Line.at (signed false 1 * 2 ^ (-1 : Int)) :=
    ofRatio_place_eq Nat.two_pos (by decide) (by decide) (by decide) (by simp)
  rw [hplace]
  simp [signed]

/-- An integer and one half, counted in steps. -/
theorem steps_of_half {steps : Int} {step : ℚ} (hstep : 0 < step)
    (h : ((2 * r + 1 : Int) : ℚ) = 2 * (steps * step)) :
    steps ≠ 0 ∧ (steps < 0 ↔ r < 0) ∧ ((2 * r + 1).natAbs : ℚ) = 2 * (steps.natAbs * step) := by
  refine ⟨?_, ?_, ?_⟩
  · rintro rfl
    rw [Int.cast_zero, zero_mul, mul_zero, Int.cast_eq_zero] at h
    omega
  · have hiff : (0 : ℚ) ≤ (2 * r + 1 : Int) ↔ (0 : ℚ) ≤ steps := by
      rw [h, mul_nonneg_iff_of_pos_left two_pos, mul_nonneg_iff_of_pos_right hstep]
    rw [Int.cast_nonneg_iff, Int.cast_nonneg_iff] at hiff
    omega
  · rw [Nat.cast_natAbs, Nat.cast_natAbs, Int.cast_abs, Int.cast_abs, h, abs_mul, abs_mul,
      abs_two, abs_of_pos hstep]

/-- One half added to an integer. -/
theorem exists_add_half (hx : x.place = Line.at r) : ∃ num den, 0 < den ∧
    2 * num = (2 * r + 1).natAbs * den ∧
    x.add (ofRatio false 1 2) = ofRatio (r < 0) num den := by
  obtain ⟨s, m, d, hm, rfl, hvalue⟩ := exists_of_place hx
  obtain ⟨t, n, e, hn, hhalf, hvalue'⟩ := exists_of_place place_half
  have hp : (signed s (refine m d (min d e)) * 2 ^ min d e : ℚ) = r :=
    (signed_mul_zpow (refine_value (min_le_left d e))).trans hvalue
  have hq : (signed t (refine n e (min d e)) * 2 ^ min d e : ℚ) = 1 / 2 :=
    (signed_mul_zpow (refine_value (min_le_right d e))).trans hvalue'
  let sum : Int := signed s (refine m d (min d e)) + signed t (refine n e (min d e))
  have hdouble : ((2 * r + 1 : Int) : ℚ) = 2 * (sum * 2 ^ min d e) := by
    rw [Int.cast_add (signed s _), add_mul, hp, hq]
    push_cast
    ring
  obtain ⟨hne, hsign, habs⟩ := steps_of_half (zpow_pos two_pos _) hdouble
  have hden := onGrid_pos sum.natAbs (-min d e) Nat.one_pos
  refine ⟨(onGrid sum.natAbs 1 (-min d e)).1, (onGrid sum.natAbs 1 (-min d e)).2, hden, ?_, ?_⟩
  · have hratio := onGrid_dyadic sum.natAbs (min d e)
    rw [div_eq_iff (Nat.cast_ne_zero.mpr hden.ne')] at hratio
    rw [← Nat.cast_inj (R := ℚ), Nat.cast_mul, Nat.cast_mul, hratio, habs]
    push_cast
    ring
  · rw [hhalf, ← decide_eq_decide.mpr hsign]
    exact if_neg hne

/-- Below one half more than an integer stands the integer, or the next one if it is odd and lies
between 2⁵² and 2⁵³. -/
theorem toInt?_add_half (hr : IsShort r) (hrange : r.natAbs < overflowStart)
    (hx : x.place = Line.at r) : (x.add (ofRatio false 1 2)).toInt? .down =
      some (r + if r % 2 = 1 ∧ 2 ^ 52 < r.natAbs then 1 else 0) := by
  obtain ⟨num, den, hden, hdouble, hadd⟩ := exists_add_half hx
  have hodd : 0 < (2 * r + 1).natAbs := by omega
  have hnum : 0 < num := by
    have := Nat.mul_pos hodd hden
    omega
  have hfinite : (ofRatio (r < 0) num den).isFinite := by
    rw [ofRatio_isFinite_iff hden]
    have hle : (2 * r + 1).natAbs < 2 * overflowStart := by omega
    have := Nat.mul_lt_mul_of_pos_right hle hden
    have hcomm : 2 * overflowStart * den = 2 * (den * overflowStart) := by ring
    omega
  have hplace := ofRatio_place_of_isFinite hnum hfinite
  simp only [decide_eq_true_eq] at hplace
  rw [hadd, toInt?_down hplace, floor_half hr hden hdouble]

end OneHalf

/-! ## Whole roundings -/

section Integers

variable {n : Int}

/-- The integer that comes of rounding one half up. -/
def halfUp (n : Int) : Int :=
  roundInt n + if n % 2 = 1 ∧ 2 ^ 52 < n.natAbs ∧ n.natAbs < 2 ^ 53 then 1 else 0

theorem roundInt_lt (hn : n.natAbs < overflowStart) : (roundInt n).natAbs < overflowStart := by
  obtain ⟨s, m, e, hm, -, hvalue⟩ := exists_of_place (ofInt_place hn)
  have hlt := lt_overflowStart hm.1 hm.2.2.1
  have hstep : (0 : ℚ) < 2 ^ e := zpow_pos two_pos e
  have habs : ((roundInt n).natAbs : ℚ) = m * 2 ^ e := by
    rw [Nat.cast_natAbs, Int.cast_abs, ← hvalue, abs_mul, abs_of_pos hstep]
    cases s with
    | true => simp [signed]
    | false => simp [signed]
  rw [← habs] at hlt
  exact_mod_cast hlt

theorem le_natAbs_roundInt (hn : 2 ^ 53 ≤ n.natAbs) : 2 ^ 53 ≤ (roundInt n).natAbs := by
  have hpos : 0 < n.natAbs := (Nat.two_pow_pos 53).trans_le hn
  have hvalue : ((pow2 52 : Nat) * 2 ^ (1 : Int) : ℚ) = (2 ^ 53 : Nat) := by
    rw [pow2_mul_zpow]
    norm_num
  have hle : ((pow2 52 : Nat) * 2 ^ (1 : Int) : ℚ) ≤ rounded n.natAbs 1 := by
    refine le_rounded hpos Nat.one_pos (by decide) ?_
    rw [hvalue, Nat.cast_one, div_one]
    exact_mod_cast hn
  rw [hvalue, rounded_one hpos] at hle
  rw [natAbs_roundInt]
  exact_mod_cast hle

/-- The odd integers that become the next one are not rounded before. -/
theorem roundInt_add_eq_halfUp (n : Int) :
    roundInt n + (if roundInt n % 2 = 1 ∧ 2 ^ 52 < (roundInt n).natAbs then 1 else 0) =
      halfUp n := by
  rw [halfUp]
  rcases Nat.lt_or_ge n.natAbs (2 ^ 53) with h | h
  · rw [roundInt_of_isShort (isShort_of_natAbs_le h.le)]
    simp only [h, and_true]
  · have heven := even_of_isShort (isShort_roundInt n) (le_natAbs_roundInt h)
    rw [if_neg (by omega), if_neg (by omega)]

theorem isShort_halfUp (n : Int) : IsShort (halfUp n) := by
  rw [halfUp]
  split
  · next h =>
    rw [roundInt_of_isShort (isShort_of_natAbs_le h.2.2.le)]
    exact isShort_of_natAbs_le (by omega)
  · rw [Int.add_zero]
    exact isShort_roundInt n

theorem halfUp_lt (hn : n.natAbs < overflowStart) : (halfUp n).natAbs < overflowStart := by
  rw [halfUp]
  split
  · next h =>
    have hlarge : 2 ^ 53 < overflowStart := two_pow_lt_overflowStart (by decide)
    rw [roundInt_of_isShort (isShort_of_natAbs_le h.2.2.le)]
    omega
  · rw [Int.add_zero]
    exact roundInt_lt hn

/-- The integers that remain what they are have few digits, and do not lie among the odd ones
beyond 2⁵². -/
theorem halfUp_eq_self_iff : halfUp n = n ↔ IsShort n ∧ (n % 2 = 0 ∨ n.natAbs ≤ 2 ^ 52) := by
  rcases Nat.lt_or_ge n.natAbs (2 ^ 53) with h | h
  · have hshort := isShort_of_natAbs_le h.le
    rw [halfUp, roundInt_of_isShort hshort]
    simp only [hshort, true_and, h, and_true]
    split <;> omega
  · rw [halfUp, if_neg (by omega), Int.add_zero, roundInt_eq_self_iff]
    constructor
    · exact fun hshort => ⟨hshort, .inl (even_of_isShort hshort h)⟩
    · exact fun hshort => hshort.1

end Integers

end Binary64

namespace Number

variable {n : Int}

theorem floor_eq_ok {x : Binary64} (h : x.toInt? .down = some n) : (float x).floor = .ok n := by
  simp only [floor, toInteger, integerPart, h]

/-- A short integer over one is the binary number that it is. -/
theorem div_one (hn : n.natAbs < overflowStart) : (int n).div (.int 1) =
    .ok (.float (Binary64.ofInt n)) := by
  have hfinite := Binary64.ofInt_isFinite_iff.mpr hn
  have hquot : Binary64.ofRatio (decide (n < 0) != decide ((1 : Int) < 0)) n.natAbs
      (1 : Int).natAbs = Binary64.ofInt n := by
    simp [Binary64.ofInt]
  simp only [div, hquot, hfinite, if_true]

theorem trunc_ofInt (hshort : IsShort n) (hn : n.natAbs < overflowStart) :
    (float (Binary64.ofInt n)).trunc = .ok n := by
  have hplace := Binary64.ofInt_place hn
  rw [Binary64.roundInt_of_isShort hshort] at hplace
  simp only [trunc, toInteger, integerPart, Binary64.toInt?_of_place hplace]

/-- An integer is rounded to itself or to a neighbour, if there is a binary number for it. -/
theorem roundedTo_int (n : Int) : Library.roundedTo (.int n) 0 =
    if n.natAbs < overflowStart then .ok (.int (Binary64.halfUp n))
    else .error .integerTooLarge := by
  have hsteps : Library.roundedTo (.int n) 0 = (do
      let scaled ← (int (n * 1)).add (.float (Binary64.ofRatio false 1 2))
      let quotient ← (int (← scaled.floor)).div (.int 1)
      return .int (← quotient.trunc)) := rfl
  rw [hsteps, Int.mul_one]
  by_cases hn : n.natAbs < overflowStart
  · have hadd : (int n).add (.float (Binary64.ofRatio false 1 2)) =
        .ok (.float ((Binary64.ofInt n).add (Binary64.ofRatio false 1 2))) :=
      bind_eq_ok.mpr ⟨_, (toFloat_int n).trans (if_pos hn), rfl⟩
    have hfloor := floor_eq_ok (Binary64.toInt?_add_half (Binary64.isShort_roundInt n)
      (Binary64.roundInt_lt hn) (Binary64.ofInt_place hn))
    rw [Binary64.roundInt_add_eq_halfUp] at hfloor
    have hdiv := div_one (Binary64.halfUp_lt hn)
    have htrunc := trunc_ofInt (Binary64.isShort_halfUp n) (Binary64.halfUp_lt hn)
    rw [if_pos hn]
    refine bind_eq_ok.mpr ⟨_, hadd, bind_eq_ok.mpr ⟨_, hfloor, bind_eq_ok.mpr ⟨_, hdiv, ?_⟩⟩⟩
    exact bind_eq_ok.mpr ⟨_, htrunc, rfl⟩
  · have hadd : (int n).add (.float (Binary64.ofRatio false 1 2)) = .error .integerTooLarge :=
      bind_eq_error.mpr (.inl ((toFloat_int n).trans (if_neg hn)))
    rw [if_neg hn, hadd]
    rfl

end Number

/-! ## The methods -/

/-- The methods by which the library rounds numbers are the builtin ones. -/
structure Library.RoundsNumbers (library : Library.Registry) : Prop where
  floor : (library.method? (some .number) "floor").map (·.op) = some .floor
  ceil : (library.method? (some .number) "ceil").map (·.op) = some .ceil
  round : (library.method? (some .number) "round").map (·.op) = some .round

theorem Library.roundsNumbers_builtin : RoundsNumbers .builtin where
  floor := by decide +kernel
  ceil := by decide +kernel
  round := by decide +kernel

namespace Expr

variable {base : Expr} {s : Scope} {n : Int}

theorem eval_round (hlibrary : Library.RoundsNumbers s.library)
    (hbase : base.eval s = .ok (.int n)) : (call (member base "round") []).eval s =
      if n.natAbs < overflowStart then .ok (.int (Binary64.halfUp n))
      else .error (.evaluation (.call "round" .integerTooLarge)) := by
  have happly : Library.MethodOp.round.apply s (.int n) [] = do
      return .number (← Failure.ofFault (Library.roundedTo (.int n) 0)) := rfl
  rw [eval_bare_method hlibrary.round rfl hbase, happly, Number.roundedTo_int]
  split
  · rfl
  · rfl

/-- The floor and the ceiling of an integer are the integer.  Rounding needs a binary number for it
and leaves it alone exactly if it has few digits and is not one of the odd ones beyond 2⁵². -/
theorem eval_rounding_methods (hlibrary : Library.RoundsNumbers s.library)
    (hbase : base.eval s = .ok (.int n)) :
    (call (member base "floor") []).eval s = .ok (.int n) ∧
      (call (member base "ceil") []).eval s = .ok (.int n) ∧
      (n.natAbs < overflowStart →
        (call (member base "round") []).eval s = .ok (.int (Binary64.halfUp n))) ∧
      (overflowStart ≤ n.natAbs → (call (member base "round") []).eval s =
        .error (.evaluation (.call "round" .integerTooLarge))) ∧
      ((call (member base "round") []).eval s = .ok (.int n) ↔
        n.natAbs < overflowStart ∧ IsShort n ∧ (n % 2 = 0 ∨ n.natAbs ≤ 2 ^ 52)) := by
  have hround := eval_round hlibrary hbase
  refine ⟨?_, ?_, fun hn => hround.trans (if_pos hn),
    fun hn => hround.trans (if_neg (not_lt.mpr hn)), ?_⟩
  · rw [eval_bare_method hlibrary.floor rfl hbase]
    rfl
  · rw [eval_bare_method hlibrary.ceil rfl hbase]
    rfl
  · rw [hround, ← Binary64.halfUp_eq_self_iff]
    split
    · next hn => simp [Value.int, hn]
    · next hn => simp [hn]

/-- A power of two is left alone beyond 2⁵³, too. -/
theorem eval_round_power : (call (member (literal (.number 1152921504606846976)
    "1152921504606846976") "round") []).eval blankScope = .ok (.int 1152921504606846976) := by
  have hbase := eval_int 1152921504606846976 "1152921504606846976" blankScope
  have hrange : (1152921504606846976 : Int).natAbs < overflowStart := by decide +kernel
  have hshort : IsShort 1152921504606846976 := ⟨1, 60, by decide, by decide⟩
  obtain ⟨-, -, -, -, hiff⟩ := eval_rounding_methods Library.roundsNumbers_builtin hbase
  exact hiff.mpr ⟨hrange, hshort, .inl (by decide)⟩

/-- The first odd integer beyond 2⁵² becomes the next one, and the first beyond 2⁵³ the one
before. -/
theorem eval_round_odd :
    (call (member (literal (.number 4503599627370497) "4503599627370497") "round") []).eval
      blankScope = .ok (.int 4503599627370498) ∧
    (call (member (literal (.number 9007199254740993) "9007199254740993") "round") []).eval
      blankScope = .ok (.int 9007199254740992) := by
  have hfirst := eval_round Library.roundsNumbers_builtin
    (eval_int 4503599627370497 "4503599627370497" blankScope)
  have hsecond := eval_round Library.roundsNumbers_builtin
    (eval_int 9007199254740993 "9007199254740993" blankScope)
  rw [if_pos (by decide +kernel)] at hfirst hsecond
  rw [show Binary64.halfUp 4503599627370497 = 4503599627370498 by decide +kernel] at hfirst
  rw [show Binary64.halfUp 9007199254740993 = 9007199254740992 by decide +kernel] at hsecond
  exact ⟨hfirst, hsecond⟩

end Expr

end NoteQuery
