/-
Dates.

The Gregorian calendar, carried back to the year 1 and on to the year 9999.  A date holds the
proof that its day exists.  Days are counted from 1 for the first of January of the year 1.
-/
namespace NoteQuery

namespace Calendar

/-- A year with a 29th of February. -/
def isLeap (year : Nat) : Bool :=
  year % 4 == 0 && (year % 100 != 0 || year % 400 == 0)

/-- The length of a month; nothing for a number that is no month. -/
def daysInMonth (year month : Nat) : Nat :=
  match month with
  | 1 | 3 | 5 | 7 | 8 | 10 | 12 => 31
  | 4 | 6 | 9 | 11 => 30
  | 2 => if isLeap year then 29 else 28
  | _ => 0

/-- The days of all the years before. -/
def daysBeforeYear (year : Nat) : Nat :=
  let y := year - 1
  365 * y + y / 4 - y / 100 + y / 400

/-- The days of the first `months` months. -/
def daysOfMonths (year : Nat) : (months : Nat) → Nat
  | 0 => 0
  | m + 1 => daysOfMonths year m + daysInMonth year (m + 1)

end Calendar

open Calendar

/-- A day of the calendar. -/
structure Date where
  year : Nat
  month : Nat
  day : Nat
  valid : 1 ≤ year ∧ year ≤ 9999 ∧ 1 ≤ month ∧ month ≤ 12 ∧ 1 ≤ day ∧ day ≤ daysInMonth year month
deriving DecidableEq

namespace Date

instance : Inhabited Date := ⟨⟨1970, 1, 1, by decide⟩⟩

/-- The day with these numbers, if there is one. -/
def of? (year month day : Nat) : Option Date :=
  if h : 1 ≤ year ∧ year ≤ 9999 ∧ 1 ≤ month ∧ month ≤ 12 ∧ 1 ≤ day ∧ day ≤ daysInMonth year month
  then some ⟨year, month, day, h⟩
  else none

theorem of?_eq_some {d : Date} : of? d.year d.month d.day = some d := by
  simp [of?, d.valid]

/-- The count of the day. -/
def ordinal (d : Date) : Nat :=
  daysBeforeYear d.year + daysOfMonths d.year (d.month - 1) + d.day

/-- The count of the first day of 1970. -/
def epochOrdinal : Nat := 719163

/-- The count of the last day of 9999. -/
def lastOrdinal : Nat := 3652059

/-- The year in which a day of the count lies: the estimate by the mean length of a year, or a
neighbour of it. -/
def yearOfOrdinal (n : Nat) : Nat :=
  let y := (n - 1) * 400 / 146097 + 1
  if n ≤ daysBeforeYear y then y - 1
  else if daysBeforeYear (y + 1) < n then y + 1
  else y

/-- The month and the day of the `n`th day of a year, looked for from the month after `done`. -/
def monthAndDay (year n : Nat) : (fuel done : Nat) → Nat × Nat
  | 0, done => (done + 1, n - daysOfMonths year done)
  | fuel + 1, done =>
    if n ≤ daysOfMonths year (done + 1) then (done + 1, n - daysOfMonths year done)
    else monthAndDay year n fuel (done + 1)

/-- The day with that count, within the calendar. -/
def ofOrdinal? (n : Int) : Option Date :=
  if 1 ≤ n ∧ n ≤ lastOrdinal then
    let year := yearOfOrdinal n.toNat
    let (month, day) := monthAndDay year (n.toNat - daysBeforeYear year) 11 0
    of? year month day
  else none

/-- The day of the week, Monday being 0. -/
def weekday (d : Date) : Nat :=
  (d.ordinal + 6) % 7

/-- A number with zeros in front up to a width. -/
def padded (width n : Nat) : List Char :=
  let digits := Nat.toDigits 10 n
  List.replicate (width - digits.length) '0' ++ digits

/-- Year, month and day with hyphens. -/
def isoChars (d : Date) : List Char :=
  padded 4 d.year ++ '-' :: padded 2 d.month ++ '-' :: padded 2 d.day

/-- Year, month and day with hyphens. -/
def iso (d : Date) : String :=
  String.ofList d.isoChars

end Date

end NoteQuery
