/-
Differences of moments.

A difference is counted in epoch milliseconds, which go through rounded seconds, and a shift in
microseconds on the clock, which is exact.  On moments without a zone that are shown to the
millisecond both count the same (`Timestamp.microsLater_of_epochMillis`), over the whole calendar,
so a difference leads from one moment to the other and back, and has the sign of the comparison.
-/
import NoteQuery.Proofs.DurationShifts
import NoteQuery.Proofs.EpochMillis

namespace NoteQuery

namespace Timestamp

variable {t u : Timestamp} {m n : Int}

/-- The moment has no zone, and its clock shows whole milliseconds. -/
structure OnMilli (t : Timestamp) : Prop where
  zone : t.zone = none
  whole : t.microsecond % 1000 = 0

/-- Moments on whole milliseconds are as far apart on the clock as their epoch milliseconds. -/
theorem microsLater_of_epochMillis (ht : t.OnMilli) (hu : u.OnMilli) (hm : t.epochMillis = .ok m)
    (hn : u.epochMillis = .ok n) : MicrosLater ((n - m) * 1000) t u where
  wall := by
    rw [← epochMillis_mul ht.zone ht.whole hm, ← epochMillis_mul hu.zone hu.whole hn]
    ring
  zone := hu.zone.trans ht.zone.symm

end Timestamp

namespace Scope

variable {s : Scope} {v w : Value} {t u : Timestamp} {m n : Int}

theorem subtract_moments (hv : v.moment? = some t) (hw : w.moment? = some u)
    (hm : t.epochMillis = .ok m) (hn : u.epochMillis = .ok n) :
    s.subtract v w = .ok (.int (m - n)) := by
  unfold subtract
  rw [hv, hw]
  show Failure.ofFault (do return Value.int ((← t.epochMillis) - (← u.epochMillis))) = _
  rw [hm, hn]
  rfl

theorem subtract_moment_number {k : Number} (hv : v.moment? = some t) :
    s.subtract v (.number k) = shifted t k.neg := by
  unfold subtract
  rw [hv]
  rfl

theorem shifted_eq_ok {k : Int} (h : Timestamp.MicrosLater (k * 1000) t u) :
    shifted t (.int k) = .ok (.timestamp u) := by
  rw [shifted, Timestamp.shiftMillis_int_eq_ok_iff.mpr h]
  rfl

end Scope

namespace Value

theorem compare_moments {strict : Bool} {v w : Value} {t u : Timestamp} {m n : Int}
    (hv : v.moment? = some t) (hw : w.moment? = some u) (hm : t.epochMillis = .ok m)
    (hn : u.epochMillis = .ok n) : v.compare strict w = .ok (Ord.compare m n) := by
  unfold compare
  rw [hv, hw]
  show Failure.ofFault (do return Ord.compare (← t.epochMillis) (← u.epochMillis)) = _
  rw [hm, hn]
  rfl

end Value

namespace Expr

open Timestamp Scope

variable {a b : Expr} {s : Scope} {v w : Value} {t u : Timestamp} {m n : Int}

/-- The difference of two moments without a zone that are shown to the millisecond is an integer,
the milliseconds between them on the clock.  Added to the moment that was subtracted it gives the
other one, taken from the other one it gives that moment back, and its sign is that of the
comparison. -/
theorem eval_difference_inverse (ha : a.eval s = .ok v) (hb : b.eval s = .ok w)
    (hv : v.moment? = some t) (hw : w.moment? = some u) (ht : t.OnMilli) (hu : u.OnMilli)
    (hm : t.epochMillis = .ok m) (hn : u.epochMillis = .ok n) :
    ∃ k : Int, (binary .subtract b a).eval s = .ok (.int k) ∧ k * 1000 = u.wall - t.wall ∧
      (binary .add a (binary .subtract b a)).eval s = .ok (.timestamp u) ∧
      (binary .subtract b (binary .subtract b a)).eval s = .ok (.timestamp t) ∧
      ∀ strict, w.compare strict v = .ok (Ord.compare k 0) := by
  have hlater := microsLater_of_epochMillis ht hu hm hn
  have hdifference : (binary .subtract b a).eval s = .ok (.int (n - m)) := by
    rw [eval_subtract hb ha, guardArithmetic_eq_ok]
    exact subtract_moments hw hv hn hm
  refine ⟨n - m, hdifference, ?_, ?_, ?_, fun strict => ?_⟩
  · rw [hlater.wall]
    ring
  · rw [eval_add ha hdifference, guardArithmetic_eq_ok, Value.int, add_moment_number hv]
    exact shifted_eq_ok hlater
  · rw [eval_subtract hb hdifference, guardArithmetic_eq_ok, Value.int, subtract_moment_number hw]
    refine shifted_eq_ok ?_
    rw [Int.neg_mul]
    exact hlater.symm
  · rw [Value.compare_moments hw hv hn hm, Int.compare_eq_ite_lt, Int.compare_eq_ite_lt]
    simp only [Int.sub_pos, sub_neg]

/-- The last millisecond before 1970. -/
def beforeEpoch : Timestamp where
  date := ⟨1969, 12, 31, by decide⟩
  micros := 86399999000
  inDay := by decide
  zone := none

/-- The last millisecond of the calendar. -/
def lastMilli : Timestamp where
  date := ⟨9999, 12, 31, by decide⟩
  micros := 86399999000
  inDay := by decide
  zone := none

/-- The moments stand for names. -/
def differenceScope : Scope where
  __ := blankScope
  bindings := [("early", .timestamp beforeEpoch), ("late", .timestamp lastMilli)]

/-- The whole calendar from the last millisecond before 1970 on, and back. -/
theorem eval_difference_inverse_longest :
    ∃ k : Int, (binary .subtract (name "late") (name "early")).eval differenceScope = .ok (.int k) ∧
      k * 1000 = lastMilli.wall - beforeEpoch.wall ∧
      (binary .add (name "early") (binary .subtract (name "late") (name "early"))).eval
        differenceScope = .ok (.timestamp lastMilli) ∧
      (binary .subtract (name "late") (binary .subtract (name "late") (name "early"))).eval
        differenceScope = .ok (.timestamp beforeEpoch) ∧
      ∀ strict, (Value.timestamp lastMilli).compare strict (.timestamp beforeEpoch) =
        .ok (Ord.compare k 0) :=
  eval_difference_inverse rfl rfl rfl rfl ⟨rfl, rfl⟩ ⟨rfl, rfl⟩
    (show beforeEpoch.epochMillis = .ok (-1) by decide +kernel)
    (show lastMilli.epochMillis = .ok 253402300799999 by decide +kernel)

end Expr

end NoteQuery
