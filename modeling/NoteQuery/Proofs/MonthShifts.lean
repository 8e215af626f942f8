/-
Moving by months.

Months are counted through from the start of the year 0 (`Date.monthCount`), so a day that is moved
by months is the one with so many months more in its count and with its number cut to the length of
the month (`Date.shiftMonths_eq_ok_iff`).  Everything else is told by that count.  Two moves lead to
the month to which one move by the sum leads, but the day may be cut twice; the days of the calendar
stand in the order of their months first (`Date.ordinal_le_iff`), and cutting keeps the order within
a month.
-/
import NoteQuery.Calendar.Shift
import NoteQuery.Proofs.Extremes

namespace NoteQuery

open Calendar

namespace Date

variable {d e : Date} {n : Int}

/-! ## Months in a row -/

/-- The months from the start of the year 0 to that of the day's month. -/
def monthCount (d : Date) : Int :=
  12 * d.year + (d.month - 1)

theorem monthCount_div (d : Date) : d.monthCount / 12 = d.year := by
  have hvalid := d.valid
  unfold monthCount
  omega

theorem month_eq (d : Date) : (d.month : Int) = d.monthCount % 12 + 1 := by
  have hvalid := d.valid
  unfold monthCount
  omega

theorem monthCount_eq_iff : d.monthCount = e.monthCount ↔ d.year = e.year ∧ d.month = e.month := by
  have hd := d.valid
  have he := e.valid
  unfold monthCount
  omega

/-- Every month has 28 days at least. -/
theorem twentyEight_le_daysInMonth (year : Nat) {month : Nat} (h : 1 ≤ month) (h' : month ≤ 12) :
    28 ≤ daysInMonth year month := by
  unfold daysInMonth
  grind

theorem of?_eq_some_iff {year month day : Nat} :
    of? year month day = some d ↔ d.year = year ∧ d.month = month ∧ d.day = day := by
  constructor
  · intro h
    unfold of? at h
    split at h
    · cases h
      exact ⟨rfl, rfl, rfl⟩
    · cases h
  · rintro ⟨rfl, rfl, rfl⟩
    exact of?_eq_some

/-- Moved by months, a day keeps its number as far as the month goes. -/
theorem shiftMonths_eq_ok_iff : d.shiftMonths n = .ok e ↔
    e.monthCount = d.monthCount + n ∧ e.day = min d.day (daysInMonth e.year e.month) := by
  have hcount : (d.year : Int) * 12 + (d.month - 1) + n = d.monthCount + n := by
    unfold monthCount
    omega
  have hyear := e.monthCount_div
  have hmonth := e.month_eq
  have hvalid := e.valid
  unfold shiftMonths
  dsimp only
  rw [hcount]
  constructor
  · intro h
    split at h
    · cases h
    · split at h
      · next date hdate =>
        cases h
        obtain ⟨hy, hm, hday⟩ := of?_eq_some_iff.mp hdate
        rw [← hy, ← hm] at hday
        exact ⟨by omega, hday⟩
      · cases h
  · rintro ⟨hmonths, hday⟩
    rw [← hmonths, hyear]
    have hm : (e.monthCount % 12).toNat + 1 = e.month := by omega
    have hsome : of? (e.year : Int).toNat ((e.monthCount % 12).toNat + 1) (min d.day
        (daysInMonth (e.year : Int).toNat ((e.monthCount % 12).toNat + 1))) = some e := by
      rw [hm, Int.toNat_natCast, ← hday]
      exact of?_eq_some
    have hlow : ¬ ((e.year : Int) < -(pow2 31) ∨ (pow2 31 : Int) ≤ e.year) := by
      have hpow : pow2 31 = 2147483648 := rfl
      omega
    rw [if_neg hlow, hsome]

theorem exists_shiftMonths_iff : (∃ e, d.shiftMonths n = .ok e) ↔
    1 ≤ (d.monthCount + n) / 12 ∧ (d.monthCount + n) / 12 ≤ 9999 := by
  constructor
  · rintro ⟨e, he⟩
    obtain ⟨hmonths, -⟩ := shiftMonths_eq_ok_iff.mp he
    have hyear := e.monthCount_div
    have hvalid := e.valid
    rw [hmonths] at hyear
    omega
  · rintro ⟨hlow, hhigh⟩
    obtain ⟨year, hyear⟩ := Int.eq_ofNat_of_zero_le (show 0 ≤ (d.monthCount + n) / 12 by omega)
    obtain ⟨month, hmonth⟩ := Int.eq_ofNat_of_zero_le
      (show 0 ≤ (d.monthCount + n) % 12 by omega)
    have hlength := twentyEight_le_daysInMonth year (show 1 ≤ month + 1 by omega) (by omega)
    have hday := d.valid
    refine ⟨⟨year, month + 1, min d.day (daysInMonth year (month + 1)), by omega⟩, ?_⟩
    rw [shiftMonths_eq_ok_iff]
    refine ⟨?_, rfl⟩
    unfold monthCount at hyear hmonth ⊢
    push_cast
    omega

/-! ## The order of days -/

theorem daysOfMonths_twelve (year : Nat) :
    daysOfMonths year 12 = 365 + if isLeap year then 1 else 0 := by
  simp only [daysOfMonths, daysInMonth]
  split <;> rfl

theorem daysBeforeYear_succ {year : Nat} (h : 1 ≤ year) :
    daysBeforeYear (year + 1) = daysBeforeYear year + daysOfMonths year 12 := by
  obtain ⟨k, rfl⟩ := Nat.exists_eq_add_of_le h
  have hle : k / 100 ≤ k / 4 := Nat.div_le_div_left (by decide) (by decide)
  rw [daysOfMonths_twelve]
  simp only [daysBeforeYear, isLeap, Nat.add_comm 1 k, Nat.add_sub_cancel, Nat.succ_div,
    Nat.dvd_iff_mod_eq_zero, Bool.and_eq_true, Bool.or_eq_true, beq_iff_eq, bne_iff_ne]
  split_ifs <;> omega

theorem daysBeforeYear_mono {y z : Nat} (hy : 1 ≤ y) (h : y ≤ z) :
    daysBeforeYear y ≤ daysBeforeYear z := by
  induction z, h using Nat.le_induction with
  | base => exact Nat.le_refl _
  | succ z hz ih =>
    rw [daysBeforeYear_succ (hy.trans hz)]
    exact ih.trans (Nat.le_add_right _ _)

theorem daysOfMonths_mono (year : Nat) {m n : Nat} (h : m ≤ n) :
    daysOfMonths year m ≤ daysOfMonths year n := by
  induction n, h using Nat.le_induction with
  | base => exact Nat.le_refl _
  | succ n hn ih => exact ih.trans (Nat.le_add_right _ _)

theorem ordinal_le_daysOfMonths (d : Date) :
    d.ordinal ≤ daysBeforeYear d.year + daysOfMonths d.year d.month := by
  have hvalid := d.valid
  obtain ⟨m, hm⟩ := Nat.exists_eq_add_of_le hvalid.2.2.1
  have hsplit : daysOfMonths d.year d.month =
      daysOfMonths d.year (d.month - 1) + daysInMonth d.year d.month := by
    rw [hm, Nat.add_sub_cancel_left, Nat.add_comm 1 m]
    rfl
  unfold ordinal
  omega

/-- A day of an earlier month is an earlier day. -/
theorem ordinal_lt_of_monthCount_lt (h : d.monthCount < e.monthCount) : d.ordinal < e.ordinal := by
  have hd := d.valid
  have he := e.valid
  refine d.ordinal_le_daysOfMonths.trans_lt ?_
  unfold ordinal
  unfold monthCount at h
  rcases Nat.lt_or_ge d.year e.year with hyear | hyear
  · have hmonths := daysOfMonths_mono d.year hd.2.2.2.1
    have hnext := daysBeforeYear_succ hd.1
    have hyears := daysBeforeYear_mono (Nat.le_add_left 1 d.year) hyear
    omega
  · have hsame : d.year = e.year := by omega
    have hmonths := daysOfMonths_mono d.year (show d.month ≤ e.month - 1 by omega)
    rw [hsame] at hmonths ⊢
    omega

theorem ordinal_le_iff_of_monthCount_eq (h : d.monthCount = e.monthCount) :
    d.ordinal ≤ e.ordinal ↔ d.day ≤ e.day := by
  obtain ⟨hyear, hmonth⟩ := monthCount_eq_iff.mp h
  rw [ordinal, ordinal, hyear, hmonth, Nat.add_le_add_iff_left]

/-- Days stand in the order of their months, and within a month in that of their numbers. -/
theorem ordinal_le_iff : d.ordinal ≤ e.ordinal ↔
    d.monthCount < e.monthCount ∨ d.monthCount = e.monthCount ∧ d.day ≤ e.day := by
  rcases lt_trichotomy d.monthCount e.monthCount with h | h | h
  · exact iff_of_true (ordinal_lt_of_monthCount_lt h).le (.inl h)
  · rw [ordinal_le_iff_of_monthCount_eq h]
    simp only [h, lt_self_iff_false, false_or, true_and]
  · refine iff_of_false (not_le.mpr (ordinal_lt_of_monthCount_lt h)) ?_
    rintro (hlt | ⟨heq, -⟩)
    · exact lt_asymm h hlt
    · exact h.ne' heq

end Date

namespace Timestamp

variable {t u v w t' u' : Timestamp} {a b n : Int}

/-! ## Moments that lie months apart -/

/-- `u` is the moment `n` months after `t`: the time of day and the zone are the same, and so is the
number of the day as far as the month goes. -/
structure MonthsLater (n : Int) (t u : Timestamp) : Prop where
  months : u.date.monthCount = t.date.monthCount + n
  day : u.date.day = min t.date.day (daysInMonth u.date.year u.date.month)
  micros : u.micros = t.micros
  zone : u.zone = t.zone

theorem shiftMonths_eq_ok_iff : t.shiftMonths n = .ok u ↔ MonthsLater n t u := by
  unfold shiftMonths
  rw [map_eq_ok]
  constructor
  · rintro ⟨date, hdate, rfl⟩
    obtain ⟨hmonths, hday⟩ := Date.shiftMonths_eq_ok_iff.mp hdate
    exact ⟨hmonths, hday, rfl, rfl⟩
  · rintro ⟨hmonths, hday, hmicros, hzone⟩
    refine ⟨u.date, Date.shiftMonths_eq_ok_iff.mpr ⟨hmonths, hday⟩, ?_⟩
    cases u
    cases hmicros
    cases hzone
    rfl

/-- The year that is reached by moving so many months. -/
def shiftedYear (t : Timestamp) (n : Int) : Int :=
  (t.date.monthCount + n) / 12

theorem exists_shiftMonths_iff :
    (∃ u, t.shiftMonths n = .ok u) ↔ 1 ≤ t.shiftedYear n ∧ t.shiftedYear n ≤ 9999 := by
  rw [shiftedYear, ← Date.exists_shiftMonths_iff]
  unfold shiftMonths
  simp only [map_eq_ok]
  exact ⟨fun ⟨_, e, he, _⟩ => ⟨e, he⟩, fun ⟨e, he⟩ => ⟨_, e, he, rfl⟩⟩

namespace MonthsLater

/-- Two moves lead to the month of one, and there not to a later day. -/
theorem same_month (hu : MonthsLater a t u) (hv : MonthsLater b u v)
    (hw : MonthsLater (a + b) t w) : v.date.year = w.date.year ∧ v.date.month = w.date.month ∧
      v.date.day ≤ w.date.day := by
  have hcount : v.date.monthCount = w.date.monthCount := by
    rw [hv.months, hu.months, hw.months, Int.add_assoc]
  obtain ⟨hyear, hmonth⟩ := Date.monthCount_eq_iff.mp hcount
  refine ⟨hyear, hmonth, ?_⟩
  rw [hv.day, hw.day, hyear, hmonth]
  have hcut : u.date.day ≤ t.date.day := hu.day ▸ Nat.min_le_left _ _
  exact Nat.le_min.mpr ⟨(Nat.min_le_left _ _).trans hcut, Nat.min_le_right _ _⟩

/-- The first 28 days of a month are never cut. -/
theorem day_eq (h : MonthsLater n t u) (hday : t.date.day ≤ 28) : u.date.day = t.date.day := by
  have hvalid := u.date.valid
  have hlength := Date.twentyEight_le_daysInMonth u.date.year hvalid.2.2.1 hvalid.2.2.2.1
  rw [h.day]
  exact Nat.min_eq_left (hday.trans hlength)

/-- Moments that are as many months later than one, on the same day, are the same. -/
theorem unique (hu : MonthsLater n t u) (hv : MonthsLater n t v) : u = v :=
  Except.ok.inj ((shiftMonths_eq_ok_iff.mpr hu).symm.trans (shiftMonths_eq_ok_iff.mpr hv))

theorem trans (hu : MonthsLater a t u) (hv : MonthsLater b u v) (hday : t.date.day ≤ 28) :
    MonthsLater (a + b) t v where
  months := by rw [hv.months, hu.months, Int.add_assoc]
  day := by rw [hv.day, hu.day_eq hday]
  micros := hv.micros.trans hu.micros
  zone := hv.zone.trans hu.zone

/-- A move over the first 28 days can be taken back. -/
theorem symm (h : MonthsLater n t u) (hday : t.date.day ≤ 28) : MonthsLater (-n) u t where
  months := by rw [h.months, Int.add_neg_cancel_right]
  day := by
    rw [h.day_eq hday]
    exact (Nat.min_eq_left t.date.valid.2.2.2.2.2).symm
  micros := h.micros.symm
  zone := h.zone.symm

/-- Days in order are moved to days in order. -/
theorem mono (hu : MonthsLater n t u) (hu' : MonthsLater n t' u')
    (h : t.date.ordinal ≤ t'.date.ordinal) : u.date.ordinal ≤ u'.date.ordinal := by
  rw [Date.ordinal_le_iff] at h ⊢
  rcases h with hmonths | ⟨hmonths, hday⟩
  · refine .inl ?_
    rw [hu.months, hu'.months]
    exact Int.add_lt_add_right hmonths n
  · have hcount : u.date.monthCount = u'.date.monthCount := by
      rw [hu.months, hu'.months, hmonths]
    obtain ⟨hyear, hmonth⟩ := Date.monthCount_eq_iff.mp hcount
    refine .inr ⟨hcount, ?_⟩
    rw [hu.day, hu'.day, hyear, hmonth]
    exact min_le_min_right _ hday

end MonthsLater

/-- Moving by months stays within the calendar exactly if the year that is reached does, and keeps
the time of day.  Two moves lead to the month of one move by the sum, and not to a later day there;
without days beyond the 28th they are the one move, and a move back undoes a move.  Days in order
are moved to days in order. -/
theorem shiftMonths_calendar (t t' : Timestamp) (a b : Int) :
    (1 ≤ t.shiftedYear a ∧ t.shiftedYear a ≤ 9999 →
      ∃ u, t.shiftMonths a = .ok u ∧ u.date.year = t.shiftedYear a ∧ MonthsLater a t u) ∧
    (¬ (1 ≤ t.shiftedYear a ∧ t.shiftedYear a ≤ 9999) → ∃ f, t.shiftMonths a = .error f) ∧
    (∀ u v w, t.shiftMonths a = .ok u → u.shiftMonths b = .ok v → t.shiftMonths (a + b) = .ok w →
      v.date.year = w.date.year ∧ v.date.month = w.date.month ∧ v.date.day ≤ w.date.day ∧
        (t.date.day ≤ 28 → v = w)) ∧
    (∀ u, t.shiftMonths a = .ok u → t.date.day ≤ 28 → u.shiftMonths (-a) = .ok t) ∧
    (∀ u u', t.date.ordinal ≤ t'.date.ordinal → t.shiftMonths a = .ok u →
      t'.shiftMonths a = .ok u' → u.date.ordinal ≤ u'.date.ordinal) := by
  simp only [shiftMonths_eq_ok_iff]
  refine ⟨fun hyear => ?_, fun hyear => ?_, fun u v w hu hv hw => ?_, fun u hu hday => ?_,
    fun u u' h hu hu' => ?_⟩
  · obtain ⟨u, hu⟩ := exists_shiftMonths_iff.mpr hyear
    have hlater := shiftMonths_eq_ok_iff.mp hu
    refine ⟨u, hlater, ?_, hlater⟩
    rw [shiftedYear, ← hlater.months, Date.monthCount_div]
  · cases h : t.shiftMonths a with
    | error f => exact ⟨f, rfl⟩
    | ok u => exact absurd (exists_shiftMonths_iff.mp ⟨u, h⟩) hyear
  · obtain ⟨hyear, hmonth, hday⟩ := hu.same_month hv hw
    exact ⟨hyear, hmonth, hday, fun hfirst => (hu.trans hv hfirst).unique hw⟩
  · exact hu.symm hday
  · exact hu.mono hu' h

/-- A day that a shorter month does not have, in a leap year. -/
def lastOfJanuary : Timestamp :=
  midnight ⟨2024, 1, 31, by decide⟩

/-- A day that every month has. -/
def lateJanuary : Timestamp :=
  midnight ⟨2024, 1, 28, by decide⟩

/-- A month after a month leads to the 29th of March, two months to its end.  The 28th of January
is moved to an earlier day and back, and there is no year 0. -/
theorem shiftMonths_january :
    lastOfJanuary.shiftMonths 1 = .ok (midnight ⟨2024, 2, 29, by decide⟩) ∧
      (midnight ⟨2024, 2, 29, by decide⟩).shiftMonths 1 = .ok (midnight ⟨2024, 3, 29, by decide⟩) ∧
      (∃ w, lastOfJanuary.shiftMonths 2 = .ok w ∧ w.date.month = 3 ∧ 29 ≤ w.date.day) ∧
      (∃ f, lastOfJanuary.shiftMonths (-24288) = .error f) ∧
      ∃ u, lateJanuary.shiftMonths 1 = .ok u ∧ u.shiftMonths (-1) = .ok lateJanuary ∧
        u.date.ordinal ≤ (⟨2024, 2, 29, by decide⟩ : Date).ordinal := by
  have hfirst : lastOfJanuary.shiftMonths 1 = .ok (midnight ⟨2024, 2, 29, by decide⟩) := rfl
  have hsecond : (midnight ⟨2024, 2, 29, by decide⟩).shiftMonths 1 =
      .ok (midnight ⟨2024, 3, 29, by decide⟩) := rfl
  obtain ⟨hmove, -⟩ := shiftMonths_calendar lastOfJanuary lastOfJanuary 2 0
  obtain ⟨-, -, htwo, -⟩ := shiftMonths_calendar lastOfJanuary lastOfJanuary 1 1
  obtain ⟨-, hfail, -⟩ := shiftMonths_calendar lastOfJanuary lastOfJanuary (-24288) 0
  obtain ⟨hlate, -, -, hback, horder⟩ := shiftMonths_calendar lateJanuary lastOfJanuary 1 0
  obtain ⟨w, hw, -⟩ := hmove (by decide)
  obtain ⟨-, hmonth, hday, -⟩ := htwo _ _ w hfirst hsecond hw
  obtain ⟨u, hu, -⟩ := hlate (by decide)
  have hdays : lateJanuary.date.ordinal ≤ lastOfJanuary.date.ordinal := by decide +kernel
  have hordered := horder u _ hdays hu hfirst
  exact ⟨hfirst, hsecond, ⟨w, hw, hmonth.symm, hday⟩, hfail (by decide), u, hu,
    hback u hu (by decide), hordered⟩

end Timestamp

end NoteQuery
