/-
The wall clock.

The days of the calendar are counted without a gap: every count up to the last is that of one day
(`Date.ofOrdinal?_eq_some_iff`), since the year that is estimated from a count is right or a
neighbour of the right one, and the months of a year are gone through until the count is reached.
With the microseconds since midnight a clock time is a count, too, and a timestamp is its count and
its zone (`Timestamp.ofWall?_eq_some_iff`).  So a timestamp that is shifted is the one that the
clock shows so much later (`Timestamp.shift_eq_ok_iff`), and shifts add up and can be taken back.
-/
import NoteQuery.Proofs.MonthShifts

namespace NoteQuery

open Calendar

namespace Date

variable {d e : Date}

/-! ## Counting days -/

theorem ordinal_injective : Function.Injective ordinal := by
  intro d e h
  have hle := ordinal_le_iff.mp h.le
  have hge := ordinal_le_iff.mp h.ge
  have hmonths : d.monthCount = e.monthCount := by omega
  have hday : d.day = e.day := by omega
  obtain ⟨hyear, hmonth⟩ := monthCount_eq_iff.mp hmonths
  exact Option.some.inj ((of?_eq_some_iff.mpr ⟨hyear, hmonth, hday⟩).symm.trans of?_eq_some)

theorem ordinal_pos (d : Date) : 0 < d.ordinal := by
  have hvalid := d.valid
  unfold ordinal
  omega

theorem ordinal_le_lastOrdinal (d : Date) : d.ordinal ≤ lastOrdinal := by
  have hvalid := d.valid
  calc d.ordinal ≤ daysBeforeYear d.year + daysOfMonths d.year d.month := d.ordinal_le_daysOfMonths
    _ ≤ daysBeforeYear d.year + daysOfMonths d.year 12 :=
      Nat.add_le_add_left (daysOfMonths_mono d.year hvalid.2.2.2.1) _
    _ = daysBeforeYear (d.year + 1) := (daysBeforeYear_succ hvalid.1).symm
    _ ≤ daysBeforeYear 10000 := daysBeforeYear_mono (Nat.le_add_left 1 _) (by omega)

/-- The year of a count is the one whose days it lies among. -/
theorem yearOfOrdinal_spec {n : Nat} (h : 0 < n) :
    1 ≤ yearOfOrdinal n ∧ daysBeforeYear (yearOfOrdinal n) < n ∧
      n ≤ daysBeforeYear (yearOfOrdinal n + 1) := by
  obtain ⟨k, hk⟩ : ∃ k, k = (n - 1) * 400 / 146097 := ⟨_, rfl⟩
  -- 400 years have 146097 days, so the estimate is off by one at most
  have hbefore : daysBeforeYear k < n := by
    unfold daysBeforeYear
    dsimp only
    omega
  have hafter : n ≤ daysBeforeYear (k + 3) := by
    unfold daysBeforeYear
    dsimp only
    omega
  unfold yearOfOrdinal
  dsimp only
  rw [← hk]
  split_ifs with hlow hhigh
  · rw [Nat.add_sub_cancel]
    rcases Nat.eq_zero_or_pos k with rfl | hpos
    · have hfirst : daysBeforeYear (0 + 1) = 0 := rfl
      omega
    · exact ⟨hpos, hbefore, hlow⟩
  · exact ⟨by omega, hhigh, hafter⟩
  · exact ⟨by omega, not_le.mp hlow, not_lt.mp hhigh⟩

/-- The search goes through the months up to the one that the day lies in. -/
theorem monthAndDay_spec {year n fuel done : Nat} (hfuel : done + fuel = 11)
    (hlow : daysOfMonths year done < n) (hhigh : n ≤ daysOfMonths year 12) :
    ∃ month day, monthAndDay year n fuel done = (month, day) ∧ 1 ≤ month ∧ month ≤ 12 ∧
      1 ≤ day ∧ day ≤ daysInMonth year month ∧ daysOfMonths year (month - 1) + day = n := by
  have hfound {done : Nat} (hdone : done ≤ 11) (hlow : daysOfMonths year done < n)
      (h : n ≤ daysOfMonths year (done + 1)) :
      ∃ month day, (done + 1, n - daysOfMonths year done) = (month, day) ∧ 1 ≤ month ∧
        month ≤ 12 ∧ 1 ≤ day ∧ day ≤ daysInMonth year month ∧
        daysOfMonths year (month - 1) + day = n := by
    rw [daysOfMonths] at h
    refine ⟨_, _, rfl, by omega, by omega, by omega, by omega, ?_⟩
    rw [Nat.add_sub_cancel]
    omega
  induction fuel generalizing done with
  | zero =>
    obtain rfl : done = 11 := by omega
    exact hfound (Nat.le_refl 11) hlow hhigh
  | succ fuel ih =>
    rw [monthAndDay]
    split
    · next h => exact hfound (by omega) hlow h
    · next h => exact ih (by omega) (not_le.mp h)

theorem exists_ofOrdinal? {n : Nat} (h : 0 < n) (h' : n ≤ lastOrdinal) :
    ∃ d, ofOrdinal? n = some d ∧ d.ordinal = n := by
  obtain ⟨hyear, hbefore, hafter⟩ := yearOfOrdinal_spec h
  have hlast : yearOfOrdinal n ≤ 9999 := by
    by_contra hlarge
    have hmono := daysBeforeYear_mono (y := 10000) (by decide) (not_le.mp hlarge)
    have hend : daysBeforeYear 10000 = lastOrdinal := rfl
    omega
  rw [daysBeforeYear_succ hyear] at hafter
  obtain ⟨month, day, hfound, hmonth, hmonth', hday, hday', hsum⟩ :=
    @monthAndDay_spec (yearOfOrdinal n) (n - daysBeforeYear (yearOfOrdinal n)) 11 0 rfl
      (by rw [daysOfMonths]; omega) (by omega)
  refine ⟨⟨yearOfOrdinal n, month, day, hyear, hlast, hmonth, hmonth', hday, hday'⟩, ?_, ?_⟩
  · rw [ofOrdinal?, if_pos (by omega), Int.toNat_natCast]
    dsimp only
    rw [hfound]
    exact of?_eq_some_iff.mpr ⟨rfl, rfl, rfl⟩
  · unfold ordinal
    dsimp only
    omega

/-- A count is that of the day that is found for it, and of no other. -/
theorem ofOrdinal?_eq_some_iff {n : Int} : ofOrdinal? n = some d ↔ (d.ordinal : Int) = n := by
  constructor
  · intro h
    have hrange : 1 ≤ n ∧ n ≤ lastOrdinal := by
      by_contra hout
      rw [ofOrdinal?, if_neg hout] at h
      cases h
    obtain ⟨k, rfl⟩ := Int.eq_ofNat_of_zero_le (show 0 ≤ n by omega)
    obtain ⟨e, he, hordinal⟩ := exists_ofOrdinal? (n := k) (by omega) (by omega)
    cases h.symm.trans he
    rw [hordinal]
  · rintro rfl
    obtain ⟨e, he, hordinal⟩ := exists_ofOrdinal? d.ordinal_pos d.ordinal_le_lastOrdinal
    rwa [ordinal_injective hordinal] at he

end Date

namespace Timestamp

variable {t u v : Timestamp} {m n : Int} {zone : Option Zone}

/-! ## Clock times as counts -/

theorem wall_ediv (t : Timestamp) : t.wall / dayMicros + Date.epochOrdinal = t.date.ordinal := by
  have hday := t.inDay
  unfold wall
  unfold dayMicros at hday ⊢
  omega

theorem wall_emod (t : Timestamp) : (t.wall % dayMicros).toNat = t.micros := by
  have hday := t.inDay
  unfold wall
  unfold dayMicros at hday ⊢
  omega

/-- A timestamp is what its clock shows, and its zone. -/
theorem ofWall?_eq_some_iff : ofWall? n zone = some t ↔ t.wall = n ∧ t.zone = zone := by
  unfold ofWall?
  rw [Option.bind_eq_some_iff]
  constructor
  · rintro ⟨date, hdate, h⟩
    split at h
    · cases h
      refine ⟨?_, rfl⟩
      have hordinal := Date.ofOrdinal?_eq_some_iff.mp hdate
      have hmod := Int.mul_ediv_add_emod n dayMicros
      unfold wall
      unfold dayMicros at hordinal hmod ⊢
      dsimp only
      omega
    · cases h
  · rintro ⟨rfl, rfl⟩
    refine ⟨t.date, Date.ofOrdinal?_eq_some_iff.mpr t.wall_ediv.symm, ?_⟩
    simp only [t.wall_emod, dif_pos t.inDay]

theorem eq_of_wall_eq (hwall : t.wall = u.wall) (hzone : t.zone = u.zone) : t = u :=
  Option.some.inj ((ofWall?_eq_some_iff.mpr ⟨hwall, hzone⟩).symm.trans
    (ofWall?_eq_some_iff.mpr ⟨rfl, rfl⟩))

/-- The clock shows `u` so many microseconds after `t`. -/
structure MicrosLater (n : Int) (t u : Timestamp) : Prop where
  wall : u.wall = t.wall + n
  zone : u.zone = t.zone

theorem shift_eq_ok_iff : t.shift n = .ok u ↔ MicrosLater n t u := by
  have hiff : ofWall? (t.wall + n) t.zone = some u ↔ MicrosLater n t u :=
    ofWall?_eq_some_iff.trans ⟨fun ⟨hwall, hzone⟩ => ⟨hwall, hzone⟩, fun h => ⟨h.wall, h.zone⟩⟩
  rw [← hiff, shift]
  cases ofWall? (t.wall + n) t.zone with
  | none => simp
  | some w => simp

namespace MicrosLater

theorem refl (t : Timestamp) : MicrosLater 0 t t where
  wall := (Int.add_zero t.wall).symm
  zone := rfl

theorem trans (hu : MicrosLater m t u) (hv : MicrosLater n u v) : MicrosLater (m + n) t v where
  wall := by rw [hv.wall, hu.wall, Int.add_assoc]
  zone := hv.zone.trans hu.zone

theorem symm (h : MicrosLater n t u) : MicrosLater (-n) u t where
  wall := by rw [h.wall, Int.add_neg_cancel_right]
  zone := h.zone.symm

theorem unique (hu : MicrosLater n t u) (hv : MicrosLater n t v) : u = v :=
  eq_of_wall_eq (hu.wall.trans hv.wall.symm) (hu.zone.trans hv.zone.symm)

/-- Between two days of the calendar lie less than 2²³ days. -/
theorem natAbs_lt (h : MicrosLater n t u) : n.natAbs < 2 ^ 23 * dayMicros := by
  have ht := t.natAbs_wall_lt
  have hu := u.natAbs_wall_lt
  have hwall := h.wall
  unfold dayMicros at ht hu ⊢
  omega

end MicrosLater

end Timestamp

end NoteQuery
