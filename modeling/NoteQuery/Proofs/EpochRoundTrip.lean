/-
Epoch milliseconds and back.

The way back divides the milliseconds by 1000, which gives rounded seconds, cuts these to whole ones
and rounds the fraction to microseconds.  The cut is exact (`Binary64.exists_cut_of_place`), and the
product with a million does no harm: close to 1970 the seconds are fine enough to have the right
microsecond, and far from it so coarse that the product is not rounded at all.  Either way the
moment is on the microsecond nearest to the rounded seconds (`isNearest_micros`).  Up to 2³³ seconds
from 1970 that is the moment that the milliseconds were taken of, and beyond that it may be some
microseconds off, which the milliseconds do not show.
-/
import NoteQuery.Proofs.MomentDifferences
import NoteQuery.Value.Moment

namespace NoteQuery

namespace Binary64

variable {x : Binary64} {q : ℚ}

theorem isFinite_of_place (h : x.place = Line.at q) : x.isFinite = true := by
  obtain ⟨s, m, e, hm, rfl, -⟩ := exists_of_place h
  rfl

/-- A number is cut into an integer and a fraction below one, neither of which is rounded. -/
theorem exists_cut_of_place (h : x.place = Line.at q) : ∃ whole : Int,
    x.toInt? .towardZero = some whole ∧ x.fraction.place = Line.at (q - whole) ∧
      |q - whole| < 1 := by
  obtain ⟨s, m, e, hm, rfl, rfl⟩ := exists_of_place h
  rcases lt_or_ge e 0 with he | he
  · have hgrid : onGrid m 1 (-e) = (m, pow2 (-e).toNat) := by
      rw [onGrid, if_pos (by omega), Nat.one_mul]
    have hstep : (pow2 (-e).toNat : ℚ) * 2 ^ e = 1 := by
      rw [pow2_mul_zpow, show ((-e).toNat : Int) + e = 0 by omega, zpow_zero]
    have hvalue : (m * 2 ^ e : ℚ) =
        (m / pow2 (-e).toNat : Nat) + (m % pow2 (-e).toNat : Nat) * 2 ^ e := by
      rw [eq_inv_of_mul_eq_one_right hstep, ← div_eq_mul_inv, ← div_eq_mul_inv]
      exact div_eq_add_fraction m (Nat.two_pow_pos _)
    have hrest : (signed s m * 2 ^ e - (signed s (m / pow2 (-e).toNat) : Int) : ℚ) =
        signed s (m % pow2 (-e).toNat) * 2 ^ e := by
      rw [signed_cast, signed_cast, signed_cast, mul_assoc, hvalue]
      ring
    refine ⟨signed s (m / pow2 (-e).toNat), ?_, ?_, ?_⟩
    · rw [toInt?, hgrid]
      rfl
    · rw [hrest, fraction, if_neg (by omega)]
      exact ofDyadic_place_eq ((Nat.mod_le _ _).trans_lt hm.1) hm.2.1 hm.2.2.1
    · rw [hrest, abs_signed_mul, ← hstep]
      exact mul_lt_mul_of_pos_right (Nat.cast_lt.mpr (Nat.mod_lt _ (Nat.two_pow_pos _)))
        (zpow_pos two_pos e)
  · obtain ⟨k, rfl⟩ := Int.eq_ofNat_of_zero_le he
    have hwhole : (signed s m * 2 ^ (k : Int) : ℚ) = (signed s m * 2 ^ k : Int) := by
      push_cast
      rw [zpow_natCast]
    refine ⟨signed s m * 2 ^ k, toInt?_of_place (h.trans (congrArg Line.at hwhole)) _, ?_, ?_⟩
    · rw [hwhole, sub_self, fraction, if_pos he]
      exact place_zero s
    · rw [hwhole, sub_self, abs_zero]
      exact one_pos

/-- From a power of two on, what is rounded lies on its grid. -/
theorem exists_roundRat_eq {k : Int} (h : 2 ^ k ≤ |q|) :
    ∃ j : Int, roundRat q = j * 2 ^ (k - 52) := by
  have hnum : 0 < q.num.natAbs := by
    rw [Int.natAbs_pos, Rat.num_ne_zero]
    rintro rfl
    rw [abs_zero] at h
    exact absurd (zpow_pos two_pos k) (not_lt.mpr h)
  obtain ⟨-, hhigh, -⟩ := gridExponent_spec hnum q.den_pos
  rw [abs_num_div_den] at hhigh
  have hgrid := (zpow_lt_zpow_iff_right₀ one_lt_two).mp (h.trans_lt hhigh)
  obtain ⟨j, hj⟩ := exists_steps (nearest (onGrid q.num.natAbs q.den
    (gridExponent q.num.natAbs q.den)).1 (onGrid q.num.natAbs q.den
    (gridExponent q.num.natAbs q.den)).2) (show k - 52 ≤ gridExponent q.num.natAbs q.den by omega)
  rw [roundRat, rounded, ← hj]
  split_ifs
  · exact ⟨-j, by push_cast; ring⟩
  · exact ⟨j, rfl⟩

theorem IsNearest.add_even {n k : Int} (h : IsNearest n q) (hk : k % 2 = 0) :
    IsNearest (k + n) (k + q) := by
  have hshift : 2 * ((k : ℚ) + q) - 2 * ((k + n : Int) : ℚ) = 2 * q - 2 * n := by
    push_cast
    ring
  refine ⟨hshift ▸ h.close, fun htie => ?_⟩
  have heven := h.even (hshift ▸ htie)
  omega

end Binary64

namespace Timestamp

open Calendar Binary64

variable {t u : Timestamp} {n : Int}

/-! ## Rounded seconds to the microsecond -/

theorem abs_seconds_lt {k : Nat} (h : n.natAbs < 2 ^ k * 1000) :
    |(n / 1000 : ℚ)| < 2 ^ (k : Int) := by
  rw [abs_div, abs_of_pos (by norm_num : (0 : ℚ) < 1000), div_lt_iff₀ (by norm_num), ← Int.cast_abs,
    Int.abs_eq_natAbs, Int.cast_natCast, zpow_natCast]
  exact_mod_cast h

theorem abs_fraction_lt {part : ℚ} (h : |part| < 1) : |part * 1000000| < 2 ^ (20 : Int) := by
  rw [abs_mul, abs_of_pos (by norm_num : (0 : ℚ) < 1000000)]
  norm_num
  linarith

/-- Milliseconds next to 1970 are rounded to seconds that do not lead half a microsecond away. -/
theorem abs_micros_sub_le (h : |(n / 1000 : ℚ)| < 2 ^ (33 : Int)) :
    |roundRat (n / 1000) * 1000000 - (n * 1000 : Int)| ≤ 1000000 / 2 ^ 21 := by
  have hround := abs_sub_roundRat_le (k := 33) (by decide) h
  have hscale : roundRat (n / 1000) * 1000000 - ((n * 1000 : Int) : ℚ) =
      -((n / 1000 - roundRat (n / 1000)) * 1000000) := by
    push_cast
    ring
  rw [hscale, abs_neg, abs_mul, abs_of_pos (by norm_num : (0 : ℚ) < 1000000)]
  norm_num at hround ⊢
  linarith

/-- Next to 1970 the rounded fraction of the seconds has the right microsecond. -/
theorem part_eq_of_near {whole part : Int} (hnear : |(n / 1000 : ℚ)| < 2 ^ (33 : Int))
    (hcut : |roundRat (n / 1000) - whole| < 1)
    (hpart : IsNearest part (roundRat ((roundRat (n / 1000) - whole) * 1000000))) :
    part = n * 1000 - whole * 1000000 := by
  have hmicros := abs_le.mp (abs_micros_sub_le hnear)
  have hproduct := abs_le.mp (abs_sub_roundRat_le (by decide) (abs_fraction_lt hcut))
  refine hpart.unique (IsNearest.of_lt ?_)
  push_cast at hmicros ⊢
  rw [abs_lt]
  norm_num at hmicros hproduct ⊢
  constructor
  · linarith
  · linarith

/-- Far from 1970 the seconds lie on a grid of 2¹⁹ steps a second.  So does their fraction, and the
microseconds of that are not rounded. -/
theorem roundRat_fraction_of_far {q : ℚ} {whole : Int} (hfar : 2 ^ (33 : Int) ≤ |q|)
    (hcut : |roundRat q - whole| < 1) :
    roundRat ((roundRat q - whole) * 1000000) = (roundRat q - whole) * 1000000 := by
  obtain ⟨j, hj⟩ := exists_roundRat_eq hfar
  have hsteps : roundRat q - whole = (j - whole * 2 ^ 19 : Int) * 2 ^ (-19 : Int) := by
    rw [hj]
    push_cast
    norm_num
    ring
  rw [hsteps, abs_mul, ← Int.cast_abs, Int.abs_eq_natAbs, Int.cast_natCast] at hcut
  have hfew : (j - whole * 2 ^ 19).natAbs < 2 ^ 19 := by
    have hfew : ((j - whole * 2 ^ 19).natAbs : ℚ) < 2 ^ 19 := by
      norm_num at hcut ⊢
      linarith
    exact_mod_cast hfew
  refine roundRat_eq_self (m := (j - whole * 2 ^ 19).natAbs * 15625) (e := -13) ?_ (by decide) ?_
  · calc _ < 2 ^ 19 * 15625 := Nat.mul_lt_mul_of_pos_right hfew (by decide)
      _ ≤ pow2 53 := by decide
  · rw [hsteps, abs_mul, abs_mul, ← Int.cast_abs, Int.abs_eq_natAbs, Int.cast_natCast]
    push_cast
    norm_num
    ring

/-- The microsecond nearest to the rounded seconds, although their fraction is multiplied, rounded
and only then taken to the nearest one. -/
theorem isNearest_micros {whole part : Int} (hcut : |roundRat (n / 1000) - whole| < 1)
    (hpart : IsNearest part (roundRat ((roundRat (n / 1000) - whole) * 1000000))) :
    IsNearest (whole * 1000000 + part) (roundRat (n / 1000) * 1000000) := by
  rcases lt_or_ge |(n / 1000 : ℚ)| (2 ^ (33 : Int)) with hnear | hfar
  · rw [part_eq_of_near hnear hcut hpart, add_sub_cancel]
    exact IsNearest.of_lt ((abs_micros_sub_le hnear).trans_lt (by norm_num))
  · rw [roundRat_fraction_of_far hfar hcut] at hpart
    have hmoved := hpart.add_even (k := whole * 1000000) (by omega)
    push_cast at hmoved
    rwa [← add_mul, add_sub_cancel] at hmoved

/-- The rounding of the seconds leads fifteen microseconds away at most. -/
theorem abs_nearest_sub_le {m : Int} (hrange : n.natAbs < 2 ^ 38 * 1000)
    (h : IsNearest m (roundRat (n / 1000) * 1000000)) : |m - n * 1000| ≤ 15 := by
  have hround := abs_le.mp (abs_sub_roundRat_le (k := 38) (by decide) (abs_seconds_lt hrange))
  have hclose := abs_le.mp h.close
  norm_num at hround hclose
  have hlow : (-16 : ℚ) < (m - n * 1000 : Int) := by
    push_cast
    linarith
  have hhigh : ((m - n * 1000 : Int) : ℚ) < 16 := by
    push_cast
    linarith
  rw [← Int.lt_add_one_iff, abs_lt]
  exact ⟨by exact_mod_cast hlow, by exact_mod_cast hhigh⟩

/-- Next to 1970, and for whole seconds anywhere, nothing is lost. -/
theorem nearest_eq_of_near {m : Int} (hrange : n.natAbs < 2 ^ 38 * 1000)
    (h : IsNearest m (roundRat (n / 1000) * 1000000))
    (hexact : n.natAbs < 2 ^ 33 * 1000 ∨ n % 1000 = 0) : m = n * 1000 := by
  refine h.unique (IsNearest.of_lt ?_)
  rcases hexact with hnear | hwhole
  · exact (abs_micros_sub_le (abs_seconds_lt hnear)).trans_lt (by norm_num)
  · obtain ⟨seconds, rfl⟩ := Int.dvd_of_emod_eq_zero hwhole
    have hvalue : (((1000 * seconds : Int) : ℚ) / 1000) = seconds := by
      push_cast
      rw [mul_div_cancel_left₀ _ (by norm_num)]
    rw [hvalue, roundRat_eq_intCast (by omega)]
    push_cast
    rw [show (seconds * 1000000 - 1000 * seconds * 1000 : ℚ) = 0 by ring, abs_zero]
    norm_num

/-! ## Moments of the calendar -/

/-- Without a zone, the moments with epoch milliseconds are those from the second day on. -/
theorem exists_epochMillis_iff (hzone : t.zone = none) :
    (∃ n, t.epochMillis = .ok n) ↔ 2 ≤ t.date.ordinal := by
  rw [← Nat.not_lt, Date.ordinal_lt_two_iff]
  constructor
  · rintro ⟨n, hn⟩ hday
    rw [epochMillis_eq_error_iff.mpr ⟨⟨hzone, hday⟩, rfl⟩] at hn
    cases hn
  · intro hday
    cases hmillis : t.epochMillis with
    | ok n => exact ⟨n, rfl⟩
    | error f => exact absurd (epochMillis_eq_error_iff.mp hmillis).1.2 hday

/-- On every microsecond from the second day of the calendar to the last there is a moment. -/
theorem exists_of_wall {m : Int} (hlow : 2 ≤ m / dayMicros + Date.epochOrdinal)
    (hhigh : m / dayMicros + Date.epochOrdinal ≤ Date.lastOrdinal) :
    ∃ u : Timestamp, u.wall = m ∧ u.zone = none ∧ 2 ≤ u.date.ordinal := by
  obtain ⟨k, hk⟩ := Int.eq_ofNat_of_zero_le (show 0 ≤ m / dayMicros + Date.epochOrdinal by omega)
  obtain ⟨d, -, hordinal⟩ := Date.exists_ofOrdinal? (n := k) (by omega) (by omega)
  have hpart : (m % dayMicros).toNat < dayMicros := by
    unfold dayMicros
    omega
  refine ⟨⟨d, (m % dayMicros).toNat, hpart, none⟩, ?_, rfl, by dsimp only; omega⟩
  unfold wall
  unfold dayMicros at hk ⊢
  dsimp only
  omega

theorem ofEpochSeconds_eq_ok {x : Binary64} {whole part : Int}
    (hwhole : x.toInt? .towardZero = some whole)
    (hpart : Number.integerPart .toEven (x.fraction.mul (ofInt 1000000)) = .ok part)
    (hwall : u.wall = whole * 1000000 + part) (hzone : u.zone = none)
    (hday : 2 ≤ u.date.ordinal) : ofEpochSeconds x = .ok u := by
  have hrange := u.natAbs_wall_lt
  unfold dayMicros at hrange
  have hfits : ¬ (u.wall / 1000000 < -(pow2 63 : Int) ∨ (pow2 63 : Int) ≤ u.wall / 1000000) := by
    have : (pow2 63 : Int) = 9223372036854775808 := by decide
    omega
  have hsystem : ¬ (u.wall / 1000000 < systemSeconds.1 ∨ systemSeconds.2 < u.wall / 1000000) := by
    unfold systemSeconds
    dsimp only
    omega
  rw [ofEpochSeconds, hwhole]
  dsimp only
  rw [hpart]
  simp only [bind, Except.bind, ← hwall, if_neg hfits, if_neg hsystem,
    ofWall?_eq_some_iff.mpr ⟨rfl, hzone⟩, if_neg (Nat.not_lt.mpr hday), pure, Except.pure]

/-- Epoch milliseconds, if they are not beyond the calendar, stand for the moment on the microsecond
nearest to the rounded seconds. -/
theorem ofEpochMillis_spec (hrange : n.natAbs < 2 ^ 38 * 1000) :
    ∃ m, IsNearest m (roundRat (n / 1000) * 1000000) ∧ ∀ u : Timestamp,
      u.wall = m → u.zone = none → 2 ≤ u.date.ordinal → ofEpochMillis (.int n) = .ok u := by
  have hplace : (ofIntRatio n 1000).place = Line.at (roundRat (n / 1000)) :=
    ofIntRatio_place (by decide)
      (abs_lt_overflowStart (k := 38) (abs_seconds_lt hrange).le (by decide))
  have hdiv : (Number.int n).div (.int 1000) = .ok (.float (ofIntRatio n 1000)) := by
    have hsame : ofRatio (decide (n < 0) != decide ((1000 : Int) < 0)) n.natAbs
        (1000 : Int).natAbs = ofIntRatio n 1000 := by
      simp [ofIntRatio]
    rw [Number.div, hsame, if_pos (isFinite_of_place hplace)]
  obtain ⟨whole, hwhole, hfraction, hcut⟩ := exists_cut_of_place hplace
  have hmillion : (ofInt 1000000).place = Line.at 1000000 :=
    ofInt_place_of_natAbs_le (n := 1000000) (by decide)
  obtain ⟨part, hpart, hnearest⟩ :=
    toInt?_toEven (mul_place hfraction hmillion
      (abs_lt_overflowStart (k := 20) (abs_fraction_lt hcut).le (by decide)))
  have hinteger : Number.integerPart .toEven
      ((ofIntRatio n 1000).fraction.mul (ofInt 1000000)) = .ok part := by
    rw [Number.integerPart, hpart]
  refine ⟨_, isNearest_micros hcut hnearest, fun u hwall hzone hday => ?_⟩
  rw [ofEpochMillis, hdiv]
  exact ofEpochSeconds_eq_ok hwhole hinteger hwall hzone hday

/-! ## There and back -/

/-- Some microseconds do not change the milliseconds. -/
theorem epochMillis_eq_of_close (hzone : t.zone = none) (hday : 2 ≤ t.date.ordinal)
    (h : |t.wall - n * 1000| ≤ 15) : t.epochMillis = .ok n := by
  obtain ⟨k, hk⟩ := (exists_epochMillis_iff hzone).mpr hday
  have hmillis := abs_lt.mp (abs_millis_sub_lt hzone)
  have hclose : |(t.wall - n * 1000 : ℚ)| ≤ 15 := by exact_mod_cast h
  have hclose := abs_le.mp hclose
  have hnearest : IsNearest n (roundRat (t.epochSeconds * 1000)) := by
    apply IsNearest.of_lt
    rw [abs_lt]
    constructor
    · linarith
    · linarith
  rw [hk, (epochMillis_spec hk).unique hnearest]

/-- The epoch milliseconds of a moment without a zone, on whole milliseconds, stand for a moment
without a zone, the one on the microsecond nearest to the rounded seconds.  It has the same
milliseconds and is fifteen microseconds away at most; within 2³³ seconds of 1970, and on whole
seconds of the whole calendar, it is the moment itself. -/
theorem toTimestamp_epochMillis (ht : t.OnMilli) (h : t.epochMillis = .ok n) :
    ∃ u, (Value.int n).toTimestamp = .ok u ∧ u.zone = none ∧
      IsNearest u.wall (roundRat (n / 1000) * 1000000) ∧ |u.wall - t.wall| ≤ 15 ∧
      (n.natAbs < 2 ^ 33 * 1000 ∨ n % 1000 = 0 → u = t) ∧ u.epochMillis = .ok n := by
  have hwall := epochMillis_mul ht.zone ht.whole h
  have hday := (exists_epochMillis_iff ht.zone).mp ⟨n, h⟩
  have hlast := t.date.ordinal_le_lastOrdinal
  have hdays := t.wall_ediv
  unfold Date.lastOrdinal at hlast
  unfold Date.epochOrdinal dayMicros at hdays
  have hrange : n.natAbs < 2 ^ 38 * 1000 := by omega
  obtain ⟨m, hm, hok⟩ := ofEpochMillis_spec hrange
  have hclose := abs_nearest_sub_le hrange hm
  have hexact := nearest_eq_of_near hrange hm
  have hclose' := abs_le.mp hclose
  -- on the first millisecond of the second day nothing is rounded, so no moment leaves that day
  obtain ⟨u, hu, huzone, huday⟩ := exists_of_wall (m := m)
    (by unfold Date.epochOrdinal dayMicros; omega)
    (by unfold Date.epochOrdinal dayMicros Date.lastOrdinal; omega)
  refine ⟨u, hok u hu huzone huday, huzone, hu ▸ hm, ?_, fun hnear => ?_, ?_⟩
  · rwa [hu, ← hwall]
  · exact eq_of_wall_eq (by rw [hu, hexact hnear, hwall]) (huzone.trans ht.zone.symm)
  · exact epochMillis_eq_of_close huzone huday (by rwa [hu])

end Timestamp

namespace Expr

open Timestamp Binary64

/-- The last millisecond of the calendar does not come back. -/
theorem toTimestamp_epochMillis_late :
    lastMilli.OnMilli ∧ lastMilli.epochMillis = .ok 253402300799999 ∧
      (Value.int 253402300799999).toTimestamp.map (·.wall) = .ok (lastMilli.wall - 7) := by
  refine ⟨⟨rfl, rfl⟩, ?_, ?_⟩
  · decide +kernel
  · decide +kernel

/-- The last millisecond before 1970 does. -/
theorem toTimestamp_epochMillis_early :
    (Value.int (-1)).toTimestamp = .ok beforeEpoch := by
  obtain ⟨u, hu, -, -, -, hexact, -⟩ := toTimestamp_epochMillis (t := beforeEpoch) (n := -1)
    ⟨rfl, rfl⟩ (by decide +kernel)
  rw [hu, hexact (.inl (by decide))]

end Expr

end NoteQuery
