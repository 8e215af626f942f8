/-
Moving by durations.

A part whose amount is an integer, as an integer or as a binary number, either leads to the moment
so many months later or to the one that the clock shows so many microseconds later
(`Timestamp.applyPart_eq_ok_iff`).  Amounts too large to be multiplied without rounding lead out of
the calendar.  A duration is applied part by part (`Timestamp.apply_eq_ok_iff`), so one duration
after another is their sum, and a year is twelve months.  Where all units have a fixed length, the
parts add up to one span (`Timestamp.PartsLater.microsLater`): their order does not matter, the span
is the duration in milliseconds, and it can be taken back.
-/
import NoteQuery.Proofs.Guards
import NoteQuery.Proofs.RoundedValues
import NoteQuery.Proofs.WallClock

namespace NoteQuery

open Calendar

/-! ## Integers among the numbers -/

namespace Binary64

variable {x : Binary64} {n : Int}

/-- An integer has no fraction. -/
theorem fraction_of_place (h : x.place = Line.at n) : ∃ s, x.fraction = zero s := by
  obtain ⟨s, m, e, hm, rfl, den, -, hgrid, -⟩ := exists_grid_of_place h
  refine ⟨s, ?_⟩
  unfold fraction
  dsimp only
  split
  · rfl
  · next he =>
    rw [onGrid, if_pos (by omega), Prod.mk.injEq, Nat.one_mul] at hgrid
    rw [hgrid.2, hgrid.1, Nat.mul_mod_right]
    unfold ofDyadic onGrid
    rw [if_pos (by omega)]
    rfl

end Binary64

namespace Number

open Binary64

variable {m n : Number} {a b k : Int}

theorem eq_of_int_place (h : (int k).place = Line.at a) : k = a :=
  Int.cast_injective (Line.at_strictMono.injective h)

theorem trunc_of_place (h : n.place = Line.at a) : n.trunc = .ok a := by
  cases n with
  | int k => exact congrArg Except.ok (eq_of_int_place h)
  | float x =>
    have hpart := toInt?_of_place h .towardZero
    rw [trunc, toInteger, integerPart, hpart]

theorem toFloat_of_place (h : n.place = Line.at a) (ha : a.natAbs ≤ 2 ^ 53) :
    ∃ x, n.toFloat = .ok x ∧ x.place = Line.at a := by
  cases n with
  | int k =>
    obtain rfl := eq_of_int_place h
    have hfinite := ofInt_isFinite_iff.mpr (natAbs_lt_overflowStart ha)
    exact ⟨ofInt k, if_pos hfinite, ofInt_place_of_natAbs_le ha⟩
  | float x => exact ⟨x, rfl, h⟩

/-- Integers of 53 digits with a sum of 53 digits are added exactly, whatever their sorts. -/
theorem add_of_place (hm : m.place = Line.at a) (hn : n.place = Line.at b) (ha : a.natAbs ≤ 2 ^ 53)
    (hb : b.natAbs ≤ 2 ^ 53) (hab : (a + b).natAbs ≤ 2 ^ 53) :
    ∃ total, m.add n = .ok total ∧ total.place = Line.at (a + b : Int) := by
  obtain ⟨x, hx, hxa⟩ := toFloat_of_place hm ha
  obtain ⟨y, hy, hyb⟩ := toFloat_of_place hn hb
  have hrange : |(a + b : ℚ)| < overflowStart := by
    rw [← Int.cast_add]
    exact abs_intCast_lt_overflowStart hab
  have hsum : (x.add y).place = Line.at (a + b : Int) := by
    rw [add_place hxa hyb hrange, ← Int.cast_add, roundRat_eq_intCast hab]
  have hrounded
      (h : m.add n = (m.toFloat >>= fun x => n.toFloat >>= fun y => .ok (.float (x.add y)))) :
      ∃ total, m.add n = .ok total ∧ total.place = Line.at (a + b : Int) :=
    ⟨.float (x.add y), h.trans (by rw [hx, hy]; rfl), hsum⟩
  cases m with
  | int j =>
    cases n with
    | int k =>
      obtain rfl := eq_of_int_place hm
      obtain rfl := eq_of_int_place hn
      exact ⟨.int (j + k), rfl, rfl⟩
    | float y => exact hrounded rfl
  | float x => exact hrounded rfl

/-- The sign of an integer is changed, or not, without rounding. -/
theorem mul_sign_of_place {sign : Int} (h : n.place = Line.at a) (hsign : sign = 1 ∨ sign = -1) :
    ∃ product, n.mul (.int sign) = .ok product ∧ product.place = Line.at (a * sign : Int) := by
  cases n with
  | int k =>
    obtain rfl := eq_of_int_place h
    exact ⟨.int (k * sign), rfl, rfl⟩
  | float x =>
    have hshort : sign.natAbs ≤ 2 ^ 53 := by
      rcases hsign with rfl | rfl <;> decide
    obtain ⟨y, hy, hplace⟩ := toFloat_of_place (n := .int sign) rfl hshort
    have habs : |(a * sign : ℚ)| = |(a : ℚ)| := by
      rcases hsign with rfl | rfl <;> simp
    have hproduct := mul_place h hplace (habs.trans_lt (abs_place_lt h))
    have hround : roundRat (a * sign) = (a * sign : Int) := by
      have hself := roundRat_of_place h
      rcases hsign with rfl | rfl
      · simpa using hself
      · simpa [roundRat_neg] using hself
    refine ⟨.float (x.mul y), ?_, hproduct.trans (congrArg Line.at hround)⟩
    show ((Number.int sign).toFloat >>= fun y => .ok (Number.float (x.mul y))) = _
    rw [hy]
    rfl

/-- Milliseconds that are an integer are as many microseconds for either sort of number. -/
theorem spanMicros_of_place (h : n.place = Line.at k) : spanMicros n = spanMicros (.int k) := by
  cases n with
  | int j => rw [eq_of_int_place h]
  | float x =>
    obtain ⟨s, hfraction⟩ := fraction_of_place h
    have hzero : ((zero s).mul (ofInt 1000)).place = Line.at (0 : Int) := by
      have hsmall : |(0 * 1000 : ℚ)| < overflowStart := by
        rw [zero_mul]
        exact abs_place_lt (place_zero s)
      rw [mul_place (place_zero s) place_thousand hsmall, zero_mul, roundRat_zero, Int.cast_zero]
    obtain ⟨t, hrest⟩ := fraction_of_place hzero
    have hwhole := toInt?_of_place h .towardZero
    have hmore := toInt?_of_place hzero .towardZero
    unfold spanMicros
    dsimp only
    rw [hfraction, hrest]
    have hnum : (onGrid 0 1 (-(-1074))).1 = 0 := rfl
    have hden : (onGrid 0 1 (-(-1074))).2 ≠ 0 := (onGrid_pos 0 (-(-1074)) Nat.one_pos).ne'
    simp only [integerPart, hwhole, hmore]
    simp only [zero, hnum, hden, Nat.mul_zero, Nat.not_lt_zero, false_and, or_self, if_false]
    simp only [bind, Except.bind, pure, Except.pure, Int.add_zero]

end Number

/-! ## Shifts by milliseconds -/

namespace Timestamp

open Number

variable {t u v w : Timestamp} {a k n : Int}

theorem shiftMillis_int_eq_ok_iff :
    t.shiftMillis (.int k) = .ok u ↔ MicrosLater (k * 1000) t u := by
  rw [← shift_eq_ok_iff, shiftMillis, spanMicros]
  simp only [pure_bind]
  split_ifs with hdays
  · refine iff_of_false nofun fun h => ?_
    have hlt := (shift_eq_ok_iff.mp h).natAbs_lt
    unfold dayMicros at hdays hlt
    omega
  · rfl

theorem shiftMillis_eq_ok_iff {millis : Number} (h : millis.place = Line.at k) :
    t.shiftMillis millis = .ok u ↔ MicrosLater (k * 1000) t u := by
  rw [← shiftMillis_int_eq_ok_iff, shiftMillis, spanMicros_of_place h, ← shiftMillis]

/-- The calendar is too short for milliseconds of more than 53 digits. -/
theorem MicrosLater.natAbs_millis_lt (h : MicrosLater (k * 1000) t u) : k.natAbs < 2 ^ 53 := by
  have hlt := h.natAbs_lt
  unfold dayMicros at hlt
  omega

end Timestamp

/-! ## One part -/

/-- The unit has the same length everywhere in the calendar. -/
def TimeUnit.IsFixed (unit : TimeUnit) : Prop :=
  unit ≠ .year ∧ unit ≠ .month

theorem TimeUnit.year_or_month_or_isFixed (unit : TimeUnit) :
    unit = .year ∨ unit = .month ∨ unit.IsFixed := by
  cases unit <;> simp [IsFixed]

theorem TimeUnit.ofInt_millis_place (unit : TimeUnit) :
    (Binary64.ofInt unit.millis).place = Line.at (unit.millis : Int) :=
  Binary64.ofInt_place_of_natAbs_le (by cases unit <;> decide)

namespace DurationPart

open Binary64

variable {p : DurationPart} {n : Int}

theorem length_place (h : p.amount.place = Line.at n)
    (hle : (p.unit.millis * n : Int).natAbs ≤ 2 ^ 53) :
    p.length.place = Line.at (p.unit.millis * n : Int) := by
  unfold length
  cases hamount : p.amount with
  | int k =>
    rw [hamount] at h
    rw [← Number.eq_of_int_place h]
    rfl
  | float x =>
    rw [hamount] at h
    have hrange : |((p.unit.millis : Int) * n : ℚ)| < overflowStart := by
      rw [← Int.cast_mul]
      exact abs_intCast_lt_overflowStart hle
    refine (mul_place p.unit.ofInt_millis_place h hrange).trans ?_
    rw [← Int.cast_mul, roundRat_eq_intCast hle]

/-- A length that has to be rounded leads out of the calendar, and so would the exact one. -/
theorem shiftMillis_length_iff {t u : Timestamp} (h : p.amount.place = Line.at n) :
    t.shiftMillis p.length = .ok u ↔ Timestamp.MicrosLater (p.unit.millis * n * 1000) t u := by
  constructor
  · intro hshift
    unfold length at hshift
    cases hamount : p.amount with
    | int k =>
      rw [hamount] at h hshift
      rw [← Number.eq_of_int_place h]
      exact Timestamp.shiftMillis_int_eq_ok_iff.mp hshift
    | float x =>
      rw [hamount] at h hshift
      rcases mul_roundRat p.unit.ofInt_millis_place h with ⟨s, hinfinite⟩ | hplace
      · dsimp only at hshift
        rw [hinfinite] at hshift
        cases hshift
      · rw [← Int.cast_mul, roundRat_intCast] at hplace
        have hlater := (Timestamp.shiftMillis_eq_ok_iff
          (show (Number.float _).place = _ from hplace)).mp hshift
        have hle := natAbs_le_of_natAbs_roundInt hlater.natAbs_millis_lt
        rwa [roundInt_of_isShort (isShort_of_natAbs_le hle)] at hlater
  · intro hlater
    have hle := hlater.natAbs_millis_lt.le
    exact (Timestamp.shiftMillis_eq_ok_iff (length_place h hle)).mpr hlater

end DurationPart

namespace Timestamp

variable {t u v w : Timestamp} {n : Int} {unit : TimeUnit} {amount : Number}

/-- `u` is the moment `n` units after `t`: years and months are counted in the calendar, and all
other units on the clock. -/
def UnitsLater (unit : TimeUnit) (n : Int) (t u : Timestamp) : Prop :=
  match unit with
  | .year => MonthsLater (n * 12) t u
  | .month => MonthsLater n t u
  | unit => MicrosLater (unit.millis * n * 1000) t u

theorem unitsLater_iff_of_fixed (h : unit.IsFixed) :
    UnitsLater unit n t u ↔ MicrosLater (unit.millis * n * 1000) t u := by
  cases unit with
  | year => exact absurd rfl h.1
  | month => exact absurd rfl h.2
  | _ => exact Iff.rfl

theorem applyPart_year (h : amount.place = Line.at n) :
    t.applyPart .year amount = t.shiftMonths (n * 12) := by
  rw [applyPart, Number.trunc_of_place h]
  rfl

theorem applyPart_month (h : amount.place = Line.at n) :
    t.applyPart .month amount = t.shiftMonths n := by
  rw [applyPart, Number.trunc_of_place h]
  rfl

theorem applyPart_of_fixed (h : unit.IsFixed) :
    t.applyPart unit amount = t.shiftMillis (DurationPart.length ⟨unit, amount⟩) := by
  have hlength := DurationPart.length_eq ⟨unit, amount⟩
  dsimp only at hlength
  cases unit with
  | year => exact absurd rfl h.1
  | month => exact absurd rfl h.2
  | _ => exact congrArg (· >>= t.shiftMillis) hlength

/-- A part with an integer as its amount leads so many units on. -/
theorem applyPart_eq_ok_iff (h : amount.place = Line.at n) :
    t.applyPart unit amount = .ok u ↔ UnitsLater unit n t u := by
  rcases unit.year_or_month_or_isFixed with rfl | rfl | hfixed
  · rw [applyPart_year h]
    exact shiftMonths_eq_ok_iff
  · rw [applyPart_month h]
    exact shiftMonths_eq_ok_iff
  · rw [applyPart_of_fixed hfixed, unitsLater_iff_of_fixed hfixed]
    exact DurationPart.shiftMillis_length_iff h

end Timestamp

/-! ## All parts -/

namespace DurationPart

/-- The integer that the amount is, zero if it is none. -/
def count (p : DurationPart) : Int :=
  match p.amount.trunc with
  | .ok n => n
  | .error _ => 0

/-- The amount is an integer, as whichever sort of number. -/
def IsWhole (p : DurationPart) : Prop :=
  p.amount.place = Line.at p.count

end DurationPart

/-- The milliseconds of parts of fixed lengths. -/
def Duration.spanOf (ps : List DurationPart) : Int :=
  (ps.map fun p => (p.unit.millis : Int) * p.count).sum

namespace Timestamp

variable {t u v w : Timestamp} {sign : Int} {ps qs : List DurationPart}

/-- The parts lead from one moment to another, each from where the one before it has led, forwards
or backwards. -/
inductive PartsLater (sign : Int) : List DurationPart → Timestamp → Timestamp → Prop
  | nil {t : Timestamp} : PartsLater sign [] t t
  | cons {p : DurationPart} {ps : List DurationPart} {t u v : Timestamp} :
      UnitsLater p.unit (p.count * sign) t u → PartsLater sign ps u v →
        PartsLater sign (p :: ps) t v

theorem apply_cons {p : DurationPart} {amount : Number}
    (h : p.amount.mul (.int sign) = .ok amount) :
    t.apply ⟨p :: ps⟩ sign = t.applyPart p.unit amount >>= fun u => u.apply ⟨ps⟩ sign := by
  rw [apply, List.foldlM_cons, h]
  rfl

theorem apply_append (t : Timestamp) (d e : Duration) (sign : Int) :
    t.apply (d.append e) sign = t.apply d sign >>= fun u => u.apply e sign :=
  List.foldlM_append

/-- A duration leads where its parts do, and fails where one of them leaves the calendar. -/
theorem apply_eq_ok_iff (hsign : sign = 1 ∨ sign = -1) (hps : ∀ p ∈ ps, p.IsWhole) :
    t.apply ⟨ps⟩ sign = .ok u ↔ PartsLater sign ps t u := by
  induction ps generalizing t with
  | nil =>
    constructor
    · rintro ⟨⟩
      exact .nil
    · rintro ⟨⟩
      rfl
  | cons p ps ih =>
    obtain ⟨hp, hps⟩ := List.forall_mem_cons.mp hps
    obtain ⟨amount, hamount, hplace⟩ := Number.mul_sign_of_place hp hsign
    rw [apply_cons hamount, bind_eq_ok]
    simp only [applyPart_eq_ok_iff hplace, ih hps]
    constructor
    · rintro ⟨v, hv, hu⟩
      exact .cons hv hu
    · rintro (_ | ⟨hv, hu⟩)
      exact ⟨_, hv, hu⟩

/-- Parts of fixed lengths lead as far as all their milliseconds. -/
theorem PartsLater.microsLater (h : PartsLater sign ps t u) (hps : ∀ p ∈ ps, p.unit.IsFixed) :
    MicrosLater (Duration.spanOf ps * sign * 1000) t u := by
  induction h with
  | nil => exact ⟨by simp [Duration.spanOf], rfl⟩
  | @cons p ps t u v hp hrest ih =>
    obtain ⟨hfixed, hps⟩ := List.forall_mem_cons.mp hps
    have hlater := ((unitsLater_iff_of_fixed hfixed).mp hp).trans (ih hps)
    have hspan : Duration.spanOf (p :: ps) * sign * 1000 =
        p.unit.millis * (p.count * sign) * 1000 + Duration.spanOf ps * sign * 1000 := by
      rw [Duration.spanOf, List.map_cons, List.sum_cons, ← Duration.spanOf]
      ring
    rwa [hspan]

/-- The milliseconds are added up without rounding, since no sum of the first of them leads out of
the calendar. -/
theorem PartsLater.exists_sum {a : Int} {start : Timestamp} {before : Number}
    (h : PartsLater 1 ps t u) (hwhole : ∀ p ∈ ps, p.IsWhole) (hfixed : ∀ p ∈ ps, p.unit.IsFixed)
    (hbefore : before.place = Line.at a) (hstart : MicrosLater (a * 1000) start t) :
    ∃ total, (ps.map DurationPart.length).foldlM Number.add before = .ok total ∧
      total.place = Line.at (a + Duration.spanOf ps : Int) := by
  induction h generalizing a before with
  | nil => exact ⟨before, rfl, by simpa [Duration.spanOf] using hbefore⟩
  | @cons p ps t u v hp hrest ih =>
    obtain ⟨hpwhole, hwhole⟩ := List.forall_mem_cons.mp hwhole
    obtain ⟨hpfixed, hfixed⟩ := List.forall_mem_cons.mp hfixed
    have hlater := (unitsLater_iff_of_fixed hpfixed).mp hp
    rw [Int.mul_one] at hlater
    have hsum := hstart.trans hlater
    rw [← Int.add_mul] at hsum
    have hle := hlater.natAbs_millis_lt.le
    obtain ⟨next, hnext, hplace⟩ := Number.add_of_place hbefore
      (DurationPart.length_place hpwhole hle) hstart.natAbs_millis_lt.le hle
      hsum.natAbs_millis_lt.le
    obtain ⟨total, htotal, htotalPlace⟩ := ih hwhole hfixed hplace hsum
    refine ⟨total, ?_, ?_⟩
    · rw [List.map_cons, List.foldlM_cons, hnext]
      exact htotal
    · rw [htotalPlace, Duration.spanOf, Duration.spanOf, List.map_cons, List.sum_cons,
        Int.add_assoc]

theorem PartsLater.exists_toMillis (h : PartsLater 1 ps t u) (hwhole : ∀ p ∈ ps, p.IsWhole)
    (hfixed : ∀ p ∈ ps, p.unit.IsFixed) :
    ∃ total, Duration.toMillis ⟨ps⟩ = .ok total ∧ total.place = Line.at (Duration.spanOf ps) := by
  have hzero : (Number.int 0).place = Line.at (0 : Int) := rfl
  obtain ⟨total, htotal, hplace⟩ := h.exists_sum hwhole hfixed hzero (MicrosLater.refl t)
  rw [Int.zero_add] at hplace
  exact ⟨total, (Duration.toMillis_eq _).trans htotal, hplace⟩

/-- A part of years is one of twelve times as many months. -/
theorem apply_year_eq_apply_month {before after : List DurationPart} {years months : Number}
    {n : Int} (t : Timestamp) (hsign : sign = 1 ∨ sign = -1) (hyears : years.place = Line.at n)
    (hmonths : months.place = Line.at (12 * n : Int)) :
    t.apply ⟨before ++ ⟨.year, years⟩ :: after⟩ sign =
      t.apply ⟨before ++ ⟨.month, months⟩ :: after⟩ sign := by
  obtain ⟨y, hy, hyplace⟩ := Number.mul_sign_of_place hyears hsign
  obtain ⟨m, hm, hmplace⟩ := Number.mul_sign_of_place hmonths hsign
  have happend (p : DurationPart) : t.apply ⟨before ++ p :: after⟩ sign =
      t.apply ⟨before⟩ sign >>= fun u => u.apply ⟨p :: after⟩ sign :=
    t.apply_append ⟨before⟩ ⟨p :: after⟩ sign
  rw [happend, happend]
  congr 1
  funext u
  rw [apply_cons hy, apply_cons hm, applyPart_year hyplace, applyPart_month hmplace]
  congr 2
  ring

end Timestamp

/-! ## Sums and differences -/

namespace Duration

/-- All amounts are integers. -/
def IsWhole (d : Duration) : Prop :=
  ∀ p ∈ d.parts, p.IsWhole

/-- There are no years and no months. -/
def IsFixed (d : Duration) : Prop :=
  ∀ p ∈ d.parts, p.unit.IsFixed

theorem spanOf_perm {ps qs : List DurationPart} (h : ps.Perm qs) : spanOf ps = spanOf qs :=
  (h.map _).sum_eq

end Duration

namespace Scope

variable {s : Scope} {v : Value} {t u : Timestamp} {d e : Duration} {sign : Int}

theorem guardArithmetic_eq_ok {r : Except Failure Value} :
    guardArithmetic r = .ok v ↔ r = .ok v := by
  unfold guardArithmetic
  split
  · split
    · exact ⟨nofun, nofun⟩
    · exact Iff.rfl
  · exact Iff.rfl

/-- What fails still fails when faults are turned into errors, and goes no further. -/
theorem guardArithmetic_error_bind (f : Fault) (next : Value → Except Failure Value) :
    (guardArithmetic (.error (.fault f)) >>= next) = guardArithmetic (.error (.fault f)) := by
  simp only [guardArithmetic]
  split
  · rfl
  · rfl

theorem moved_eq_ok : guardArithmetic (moved t d sign) = .ok v ↔
    ∃ u, t.apply d sign = .ok u ∧ .timestamp u = v := by
  rw [guardArithmetic_eq_ok, moved, Failure.ofFault_eq_ok, map_eq_ok]

theorem add_moment_duration (h : v.moment? = some t) : s.add v (.duration d) = moved t d 1 := by
  rw [add, h]
  rfl

theorem subtract_moment_duration (h : v.moment? = some t) :
    s.subtract v (.duration d) = moved t d (-1) := by
  unfold subtract
  rw [h]
  rfl

theorem add_moment_number {n : Number} (h : v.moment? = some t) :
    s.add v (.number n) = shifted t n := by
  rw [add, h]
  rfl

/-- One duration after another is their sum. -/
theorem moved_append (t : Timestamp) (d e : Duration) :
    guardArithmetic (moved t (d.append e) 1) =
      guardArithmetic (moved t d 1) >>= fun v => guardArithmetic (s.add v (.duration e)) := by
  rw [moved, moved, Timestamp.apply_append]
  cases t.apply d 1 with
  | error f => exact (guardArithmetic_error_bind f _).symm
  | ok u => exact congrArg guardArithmetic (add_moment_duration (t := u) rfl).symm

end Scope

namespace Expr

open Timestamp Scope

variable {time span left right : Expr} {s : Scope} {v w : Value} {t : Timestamp} {d : Duration}

theorem eval_add (hleft : left.eval s = .ok v) (hright : right.eval s = .ok w) :
    (binary .add left right).eval s = guardArithmetic (s.add v w) := by
  have hopen : (binary .add left right).eval s = (do
      s.operate .add (← left.eval s) (← right.eval s)) := rfl
  rw [hopen, hleft, hright]
  rfl

theorem eval_subtract (hleft : left.eval s = .ok v) (hright : right.eval s = .ok w) :
    (binary .subtract left right).eval s = guardArithmetic (s.subtract v w) := by
  have hopen : (binary .subtract left right).eval s = (do
      s.operate .subtract (← left.eval s) (← right.eval s)) := rfl
  rw [hopen, hleft, hright]
  rfl

theorem eval_add_duration (htime : time.eval s = .ok v) (ht : v.moment? = some t)
    (hspan : span.eval s = .ok (.duration d)) :
    (binary .add time span).eval s = guardArithmetic (moved t d 1) := by
  rw [eval_add htime hspan, add_moment_duration ht]

theorem eval_subtract_duration (htime : time.eval s = .ok v) (ht : v.moment? = some t)
    (hspan : span.eval s = .ok (.duration d)) :
    (binary .subtract time span).eval s = guardArithmetic (moved t d (-1)) := by
  rw [eval_subtract htime hspan, subtract_moment_duration ht]

/-- Moments are moved coherently by durations.  With integers as amounts, a sum or difference has a
value exactly if the parts lead one after the other through the calendar, and it is the moment to
which they lead.  A sum of durations moves a moment as one duration after the other does.  Without
years and months a duration moves it as its milliseconds do, in whatever order the parts stand, and
can be taken back.  And so many years are twelve times as many months. -/
theorem eval_shift_coherent (htime : time.eval s = .ok v) (ht : v.moment? = some t) :
    (∀ span d, span.eval s = .ok (.duration d) → d.IsWhole → ∀ w,
      ((binary .add time span).eval s = .ok w ↔
        ∃ u, PartsLater 1 d.parts t u ∧ .timestamp u = w) ∧
      ((binary .subtract time span).eval s = .ok w ↔
        ∃ u, PartsLater (-1) d.parts t u ∧ .timestamp u = w)) ∧
    (∀ first second d e, first.eval s = .ok (.duration d) → second.eval s = .ok (.duration e) →
      (binary .add time (binary .add first second)).eval s =
        (binary .add (binary .add time first) second).eval s) ∧
    (∀ span d w, span.eval s = .ok (.duration d) → d.IsWhole → d.IsFixed →
      (binary .add time span).eval s = .ok w →
        (∃ k, d.toMillis = .ok k ∧ ∀ amount, amount.eval s = .ok (.number k) →
          (binary .add time amount).eval s = .ok w) ∧
        (∀ other e w', other.eval s = .ok (.duration e) → e.parts.Perm d.parts →
          (binary .add time other).eval s = .ok w' → w' = w) ∧
        (∀ w', (binary .subtract (binary .add time span) span).eval s = .ok w' →
          w' = .timestamp t)) ∧
    (∀ yearly monthly before after years months n,
      yearly.eval s = .ok (.duration ⟨before ++ ⟨.year, years⟩ :: after⟩) →
      monthly.eval s = .ok (.duration ⟨before ++ ⟨.month, months⟩ :: after⟩) →
      years.place = Line.at (n : Int) → months.place = Line.at (12 * n : Int) →
        (binary .add time yearly).eval s = (binary .add time monthly).eval s ∧
        (binary .subtract time yearly).eval s = (binary .subtract time monthly).eval s) := by
  refine ⟨fun span d hspan hwhole w => ⟨?_, ?_⟩, fun first second d e hfirst hsecond => ?_,
    fun span d w hspan hwhole hfixed hw => ?_,
    fun yearly monthly before after years months n hyearly hmonthly hyears hmonths => ⟨?_, ?_⟩⟩
  · rw [eval_add_duration htime ht hspan, moved_eq_ok]
    simp only [apply_eq_ok_iff (.inl rfl) hwhole]
  · rw [eval_subtract_duration htime ht hspan, moved_eq_ok]
    simp only [apply_eq_ok_iff (.inr rfl) hwhole]
  · have hsum : (binary .add first second).eval s = .ok (.duration (d.append e)) :=
      eval_add hfirst hsecond
    have hopen : (binary .add (binary .add time first) second).eval s =
        ((binary .add time first).eval s >>= fun v => second.eval s >>= fun w =>
          s.operate .add v w) := rfl
    rw [eval_add_duration htime ht hsum, hopen, eval_add_duration htime ht hfirst, hsecond,
      moved_append (s := s)]
    rfl
  · have hsum := hw
    rw [eval_add_duration htime ht hspan, moved_eq_ok] at hsum
    obtain ⟨u, hu, rfl⟩ := hsum
    have hparts := (apply_eq_ok_iff (.inl rfl) hwhole).mp hu
    have hlater := hparts.microsLater hfixed
    rw [Int.mul_one] at hlater
    refine ⟨?_, fun other e w' hother hperm hw' => ?_, fun w' hw' => ?_⟩
    · obtain ⟨k, hk, hplace⟩ := hparts.exists_toMillis hwhole hfixed
      refine ⟨k, hk, fun amount hamount => ?_⟩
      rw [eval_add htime hamount, add_moment_number ht, guardArithmetic_eq_ok, shifted,
        Failure.ofFault_eq_ok, map_eq_ok]
      exact ⟨u, (shiftMillis_eq_ok_iff hplace).mpr hlater, rfl⟩
    · rw [eval_add_duration htime ht hother, moved_eq_ok] at hw'
      obtain ⟨u', hu', rfl⟩ := hw'
      have hparts' := (apply_eq_ok_iff (.inl rfl) fun p hp => hwhole p (hperm.mem_iff.mp hp)).mp hu'
      have hlater' := hparts'.microsLater fun p hp => hfixed p (hperm.mem_iff.mp hp)
      rw [Duration.spanOf_perm hperm, Int.mul_one] at hlater'
      rw [hlater'.unique hlater]
    · rw [eval_subtract_duration hw rfl hspan, moved_eq_ok] at hw'
      obtain ⟨t', ht', rfl⟩ := hw'
      have hback := ((apply_eq_ok_iff (.inr rfl) hwhole).mp ht').microsLater hfixed
      rw [Int.mul_neg_one, Int.neg_mul] at hback
      rw [hback.unique hlater.symm]
  · rw [eval_add_duration htime ht hyearly, eval_add_duration htime ht hmonthly, moved, moved,
      apply_year_eq_apply_month t (.inl rfl) hyears hmonths]
  · rw [eval_subtract_duration htime ht hyearly, eval_subtract_duration htime ht hmonthly, moved,
      moved, apply_year_eq_apply_month t (.inr rfl) hyears hmonths]

/-- A day that not every month has, and durations of both kinds. -/
def shiftScope : Scope where
  __ := blankScope
  bindings := [
    ("start", .timestamp lastOfJanuary),
    ("month", .duration ⟨[⟨.month, 1⟩]⟩),
    ("span", .duration ⟨[⟨.day, 2⟩, ⟨.hour, .int (-3)⟩]⟩),
    ("turned", .duration ⟨[⟨.hour, .int (-3)⟩, ⟨.day, 2⟩]⟩),
    ("millis", .int 162000000),
    ("years", .duration ⟨[⟨.day, 1⟩, ⟨.year, .int (-1)⟩]⟩),
    ("months", .duration ⟨[⟨.day, 1⟩, ⟨.month, .int (-12)⟩]⟩)]

/-- Two days less three hours lead into the evening of the first of February. -/
def eveningOfFebruary : Timestamp where
  date := ⟨2024, 2, 1, by decide⟩
  micros := 75600000000
  inDay := by decide
  zone := none

/-- The end of January, moved by a sum, by a span in either order or as milliseconds, by a span and
back, and by a year or its months. -/
theorem eval_shift_coherent_january :
    (binary .add (name "start") (name "span")).eval shiftScope =
        .ok (.timestamp eveningOfFebruary) ∧
      (∃ u, PartsLater (-1) [⟨.month, 1⟩] lastOfJanuary u ∧
        (binary .subtract (name "start") (name "month")).eval shiftScope = .ok (.timestamp u)) ∧
      (binary .add (name "start") (binary .add (name "month") (name "span"))).eval shiftScope =
        (binary .add (binary .add (name "start") (name "month")) (name "span")).eval shiftScope ∧
      (binary .add (name "start") (name "millis")).eval shiftScope =
        .ok (.timestamp eveningOfFebruary) ∧
      (∀ w, (binary .add (name "start") (name "turned")).eval shiftScope = .ok w →
        w = .timestamp eveningOfFebruary) ∧
      (∀ w, (binary .subtract (binary .add (name "start") (name "span")) (name "span")).eval
        shiftScope = .ok w → w = .timestamp lastOfJanuary) ∧
      (binary .add (name "start") (name "years")).eval shiftScope =
        (binary .add (name "start") (name "months")).eval shiftScope := by
  obtain ⟨hrange, hsum, hfixed, hyears⟩ :=
    @eval_shift_coherent (name "start") shiftScope _ _ rfl rfl
  have hwhole : Duration.IsWhole ⟨[⟨.day, 2⟩, ⟨.hour, .int (-3)⟩]⟩ :=
    List.forall_mem_cons.mpr ⟨rfl, List.forall_mem_singleton.mpr rfl⟩
  have hunits : Duration.IsFixed ⟨[⟨.day, 2⟩, ⟨.hour, .int (-3)⟩]⟩ :=
    List.forall_mem_cons.mpr ⟨⟨nofun, nofun⟩, List.forall_mem_singleton.mpr ⟨nofun, nofun⟩⟩
  have hparts : PartsLater 1 [⟨.day, 2⟩, ⟨.hour, .int (-3)⟩] lastOfJanuary eveningOfFebruary :=
    .cons (u := midnight ⟨2024, 2, 2, by decide⟩) ⟨by decide +kernel, rfl⟩
      (.cons (u := eveningOfFebruary) ⟨by decide +kernel, rfl⟩ .nil)
  have hmoved := (hrange (name "span") _ rfl hwhole _).1.mpr ⟨_, hparts, rfl⟩
  have hback : (binary .subtract (name "start") (name "month")).eval shiftScope =
      .ok (.timestamp (midnight ⟨2023, 12, 31, by decide⟩)) := rfl
  obtain ⟨⟨k, hk, hmillis⟩, hturned, htaken⟩ :=
    hfixed (name "span") _ _ rfl hwhole hunits hmoved
  obtain ⟨u, hu, hmonth⟩ :=
    (hrange (name "month") _ rfl (List.forall_mem_singleton.mpr rfl) _).2.mp hback
  have hlength : Duration.toMillis ⟨[⟨.day, 2⟩, ⟨.hour, .int (-3)⟩]⟩ = .ok (.int 162000000) := by
    decide
  cases hk.symm.trans hlength
  obtain ⟨hadded, -⟩ := hyears (name "years") (name "months") [⟨.day, 1⟩] [] (.int (-1))
    (.int (-12)) (-1) rfl rfl rfl rfl
  exact ⟨hmoved, ⟨u, hu, hmonth ▸ hback⟩, hsum (name "month") (name "span") _ _ rfl rfl,
    hmillis (name "millis") rfl, fun w => hturned (name "turned") _ w rfl (List.Perm.swap _ _ _),
    htaken, hadded⟩

end Expr

end NoteQuery
