/-
Epoch milliseconds, rounded as often as they are.

The milliseconds of a moment are the integer nearest to a rounded product of rounded seconds
(`Timestamp.epochMillis_spec`).  Each step of this keeps the order, so of moments that all have a
zone, or all have none, the later one never has fewer milliseconds (`Timestamp.epochMillis_mono`).
The steps are fine enough over the whole calendar that together they are off by less than one half
(`Timestamp.abs_millis_sub_lt`): a moment without a zone whose clock shows whole milliseconds has
exactly those (`Timestamp.epochMillis_mul`).
-/
import NoteQuery.Proofs.RoundedValues

namespace NoteQuery

namespace Binary64

variable {x : Binary64} {q : ℚ} {k : Nat}

theorem Within.abs_le (hx : x.Within k) (h : x.place = Line.at q) : |q| ≤ 2 ^ k := by
  obtain ⟨s, m, e, hm, rfl, rfl⟩ := exists_of_place h
  exact (abs_signed_mul s m e).trans_le hx

theorem abs_lt_overflowStart (h : |q| ≤ 2 ^ k) (hk : k ≤ 53 + 970) : |q| < overflowStart :=
  h.trans_lt (by exact_mod_cast two_pow_lt_overflowStart hk)

end Binary64

namespace Timestamp

open Calendar Binary64

variable {t u : Timestamp} {m n : Int}

/-! ## Seconds -/

/-- The seconds of so many microseconds, the fraction rounded. -/
def splitSeconds (micros : Int) : ℚ :=
  (micros / 1000000 : Int) + roundRat ((micros % 1000000 : Int) / 1000000)

/-- The seconds of a moment as they are counted: of its instant if it has a zone, and of its clock
time with a fraction that was rounded before if it has none. -/
def epochSeconds (t : Timestamp) : ℚ :=
  if t.zone.isSome then roundRat (t.instant / 1000000) else roundRat (splitSeconds t.wall)

section Split

theorem fraction_nonneg (micros : Int) : (0 : ℚ) ≤ (micros % 1000000 : Int) / 1000000 :=
  div_nonneg (Int.cast_nonneg (Int.emod_nonneg micros (by decide))) (by norm_num)

theorem fraction_lt_one (micros : Int) : ((micros % 1000000 : Int) / 1000000 : ℚ) < 1 := by
  rw [div_lt_one (by norm_num)]
  exact_mod_cast Int.emod_lt_of_pos micros (by decide)

theorem splitSeconds_mono (h : m ≤ n) : splitSeconds m ≤ splitSeconds n := by
  rcases (Int.ediv_le_ediv (c := 1000000) (by decide) h).lt_or_eq with hlt | heq
  · -- the fraction is rounded to no more than a second, and to no less than none
    have hup : roundRat ((m % 1000000 : Int) / 1000000) ≤ 1 := by
      have hone := roundRat_eq_intCast (n := 1) (by decide)
      rw [Int.cast_one] at hone
      exact (roundRat_mono (fraction_lt_one m).le).trans_eq hone
    have hdown := roundRat_zero.symm.trans_le (roundRat_mono (fraction_nonneg n))
    have hnext : ((m / 1000000 : Int) : ℚ) + 1 ≤ (n / 1000000 : Int) := by exact_mod_cast hlt
    unfold splitSeconds
    linarith
  · have hfraction : ((m % 1000000 : Int) : ℚ) ≤ (n % 1000000 : Int) :=
      Int.cast_le.mpr (by omega)
    have hround := roundRat_mono
      (div_le_div_of_nonneg_right hfraction (by norm_num : (0 : ℚ) ≤ 1000000))
    unfold splitSeconds
    rw [heq]
    linarith

theorem abs_splitSeconds_sub_le (micros : Int) :
    |splitSeconds micros - micros / 1000000| ≤ 2 ^ (-54 : Int) := by
  have hsum : (micros / 1000000 : ℚ) =
      (micros / 1000000 : Int) + ((micros % 1000000 : Int) : ℚ) / 1000000 := by
    rw [div_eq_iff (by norm_num), add_mul, div_mul_cancel₀ _ (by norm_num), mul_comm]
    exact_mod_cast (Int.mul_ediv_add_emod micros 1000000).symm
  rw [splitSeconds, hsum, add_sub_add_left_eq_sub, ← abs_neg, neg_sub]
  refine abs_sub_roundRat_le (k := 0) (by decide) ?_
  rw [abs_of_nonneg (fraction_nonneg micros), zpow_zero]
  exact fraction_lt_one micros

/-- The calendar has less than 2³⁹ seconds before 1970 and after. -/
theorem abs_splitSeconds_lt (t : Timestamp) : |splitSeconds t.wall| < 2 ^ (39 : Int) := by
  have hwall : |(t.wall / 1000000 : ℚ)| ≤ 362387865600 := by
    have hlt := t.natAbs_wall_lt
    have hle : |t.wall| ≤ 362387865600000000 := by
      rw [Int.abs_eq_natAbs]
      unfold dayMicros at hlt
      omega
    rw [abs_div, abs_of_pos (by norm_num : (0 : ℚ) < 1000000), div_le_iff₀ (by norm_num)]
    norm_num
    exact_mod_cast hle
  have hsplit := abs_le.mp (abs_splitSeconds_sub_le t.wall)
  have hwall := abs_le.mp hwall
  have hsmall : (2 : ℚ) ^ (-54 : Int) ≤ 1 := zpow_le_one_of_nonpos₀ one_le_two (by decide)
  rw [abs_lt]
  constructor
  · norm_num at hwall ⊢
    linarith
  · norm_num at hwall ⊢
    linarith

end Split

theorem localEpochSeconds_place (t : Timestamp) :
    t.localEpochSeconds.place = Line.at (roundRat (splitSeconds t.wall)) := by
  have hday := t.inDay
  have hwall := t.natAbs_wall_lt
  have hsecond : (t.wall % 1000000 : Int) = t.microsecond := by
    unfold microsecond wall
    unfold dayMicros at hday ⊢
    omega
  have hwhole : (ofInt (t.wall / 1000000)).place = Line.at (t.wall / 1000000 : Int) := by
    refine ofInt_place_of_natAbs_le ?_
    unfold dayMicros at hwall
    omega
  have hpart : (ofRatio false t.microsecond 1000000).place =
      Line.at (roundRat ((t.wall % 1000000 : Int) / 1000000)) := by
    refine ofRatio_place_eq_roundRat (by decide) ?_ (abs_lt_overflowStart (k := 0) ?_ (by decide))
    · rw [hsecond]
      simp
    · rw [abs_of_nonneg (fraction_nonneg t.wall), pow_zero]
      exact (fraction_lt_one t.wall).le
  exact add_place hwhole hpart
    (abs_lt_overflowStart (k := 39) t.abs_splitSeconds_lt.le (by decide))

theorem zonedEpochSeconds_place (t : Timestamp) :
    t.zonedEpochSeconds.place = Line.at (roundRat (t.instant / 1000000)) := by
  have hle : |t.instant| ≤ 2 ^ 40 * 1000000 := by
    have hlt := t.natAbs_instant_lt
    rw [Int.abs_eq_natAbs]
    unfold dayMicros at hlt
    omega
  refine @ofIntRatio_place t.instant 1000000 (by decide)
    (abs_lt_overflowStart (k := 40) ?_ (by decide))
  rw [abs_div, abs_of_pos (by norm_num : (0 : ℚ) < (1000000 : Nat)), div_le_iff₀ (by norm_num)]
  exact_mod_cast hle

/-! ## Milliseconds -/

/-- The milliseconds are the integer nearest to the rounded product. -/
theorem epochMillis_spec (h : t.epochMillis = .ok n) :
    IsNearest n (roundRat (t.epochSeconds * 1000)) := by
  have hnearest {seconds : Binary64} {q : ℚ} (hplace : seconds.place = Line.at q)
      (hwithin : seconds.Within 40)
      (hn : Number.integerPart .toEven (seconds.mul (ofInt 1000)) = .ok n) :
      IsNearest n (roundRat (q * 1000)) := by
    have hproduct : |q * 1000| ≤ 2 ^ 50 := by
      rw [abs_mul, abs_of_pos (by norm_num : (0 : ℚ) < 1000)]
      calc |q| * 1000 ≤ 2 ^ 40 * 1024 := by
            gcongr
            · exact hwithin.abs_le hplace
            · norm_num
        _ = 2 ^ 50 := by norm_num
    obtain ⟨k, hk, hkn⟩ :=
      toInt?_toEven (mul_place hplace place_thousand (abs_lt_overflowStart hproduct (by decide)))
    rw [Number.integerPart, hk] at hn
    cases hn
    exact hkn
  unfold epochMillis at h
  unfold epochSeconds
  cases hzone : t.zone with
  | some z =>
    rw [hzone] at h
    exact hnearest t.zonedEpochSeconds_place t.zonedEpochSeconds_within h
  | none =>
    rw [hzone] at h
    dsimp only at h
    split at h
    · cases h
    · exact hnearest t.localEpochSeconds_place t.localEpochSeconds_within h

theorem instant_eq_wall (h : t.zone = none) : t.instant = t.wall := by
  rw [instant, h]

theorem epochSeconds_mono (hzone : t.zone.isSome = u.zone.isSome) (h : t.instant ≤ u.instant) :
    t.epochSeconds ≤ u.epochSeconds := by
  unfold epochSeconds
  cases hu : u.zone with
  | some z =>
    rw [hu, Option.isSome_some] at hzone
    rw [hzone, Option.isSome_some, if_pos rfl, if_pos rfl]
    exact roundRat_mono (div_le_div_of_nonneg_right (Int.cast_le.mpr h) (by norm_num))
  | none =>
    rw [hu, Option.isSome_none] at hzone
    rw [hzone, Option.isSome_none, if_neg Bool.false_ne_true, if_neg Bool.false_ne_true]
    rw [instant_eq_wall (Option.isNone_iff_eq_none.mp (Option.isSome_eq_false_iff.mp hzone)),
      instant_eq_wall hu] at h
    exact roundRat_mono (splitSeconds_mono h)

/-- A later moment does not have fewer milliseconds. -/
theorem epochMillis_mono (hzone : t.zone.isSome = u.zone.isSome) (h : t.instant ≤ u.instant)
    (ht : t.epochMillis = .ok m) (hu : u.epochMillis = .ok n) : m ≤ n := by
  refine (epochMillis_spec ht).mono (epochMillis_spec hu) (roundRat_mono ?_)
  exact mul_le_mul_of_nonneg_right (epochSeconds_mono hzone h) (by norm_num)

/-- Without a zone, all the rounding together does not lead an eighth of a millisecond away. -/
theorem abs_millis_sub_lt (hzone : t.zone = none) :
    |roundRat (t.epochSeconds * 1000) - t.wall / 1000| < 1 / 8 := by
  have hseconds : t.epochSeconds = roundRat (splitSeconds t.wall) := by
    rw [epochSeconds, hzone, Option.isSome_none, if_neg Bool.false_ne_true]
  have hsplit := abs_le.mp (abs_splitSeconds_sub_le t.wall)
  have hrange := abs_lt.mp t.abs_splitSeconds_lt
  have hround := abs_le.mp (abs_sub_roundRat_le (k := 39) (by decide) t.abs_splitSeconds_lt)
  rw [← hseconds] at hround
  have hproduct : |t.epochSeconds * 1000| < 2 ^ (50 : Int) := by
    rw [abs_lt]
    norm_num at hrange hround ⊢
    constructor
    · linarith
    · linarith
  have hmillis := abs_le.mp (abs_sub_roundRat_le (k := 50) (by decide) hproduct)
  rw [abs_lt]
  norm_num at hsplit hround hmillis ⊢
  constructor
  · linarith
  · linarith

/-- Whole milliseconds on the clock are the epoch milliseconds. -/
theorem epochMillis_mul (hzone : t.zone = none) (hwhole : t.microsecond % 1000 = 0)
    (h : t.epochMillis = .ok n) : n * 1000 = t.wall := by
  obtain ⟨k, hk⟩ : (1000 : Int) ∣ t.wall := by
    have hday := t.inDay
    unfold microsecond at hwhole
    unfold wall
    unfold dayMicros at hday ⊢
    omega
  have hmillis := abs_millis_sub_lt hzone
  rw [hk, Int.cast_mul, Int.cast_ofNat, mul_div_cancel_left₀ _ (by norm_num)] at hmillis
  rw [(epochMillis_spec h).unique (IsNearest.of_lt (hmillis.trans (by norm_num))), hk, Int.mul_comm]

end Timestamp

end NoteQuery
