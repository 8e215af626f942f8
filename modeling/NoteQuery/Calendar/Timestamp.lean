/-
Timestamps.

A day and a time of day to the microsecond, with or without an offset from UTC.  A timestamp
without an offset is read as UTC where an instant is asked for.  Epoch values go through
binary numbers of seconds, as clocks count them, and are rounded at each step.
-/
import NoteQuery.Calendar.Date
import NoteQuery.Number.Basic

namespace NoteQuery

namespace Calendar

/-- Microseconds of a day. -/
def dayMicros : Nat := 86400000000

end Calendar

open Calendar

/-- An offset from UTC of less than a day, in microseconds. -/
structure Zone where
  micros : Int
  bounded : -(dayMicros : Int) < micros ∧ micros < dayMicros
deriving DecidableEq

/-- UTC itself. -/
def Zone.utc : Zone := ⟨0, by decide⟩

/-- The zone with that offset, if it is less than a day. -/
def Zone.of? (micros : Int) : Option Zone :=
  if h : -(dayMicros : Int) < micros ∧ micros < dayMicros then some ⟨micros, h⟩ else none

/-- A day and the microseconds since its midnight, in a zone or in none. -/
structure Timestamp where
  date : Date
  micros : Nat
  inDay : micros < dayMicros
  zone : Option Zone
deriving DecidableEq

namespace Timestamp

/-- The start of a day. -/
def midnight (date : Date) : Timestamp where
  date := date
  micros := 0
  inDay := by decide
  zone := none

instance : Inhabited Timestamp := ⟨midnight default⟩

/-- The timestamp of a day and a clock time, if both exist. -/
def of? (date : Date) (hour minute second micro : Nat) (zone : Option Zone) : Option Timestamp :=
  let micros := ((hour * 60 + minute) * 60 + second) * 1000000 + micro
  if hour < 24 ∧ minute < 60 ∧ second < 60 ∧ micro < 1000000 then
    if h : micros < dayMicros then some ⟨date, micros, h, zone⟩ else none
  else none

def hour (t : Timestamp) : Nat := t.micros / 3600000000
def minute (t : Timestamp) : Nat := t.micros / 60000000 % 60
def second (t : Timestamp) : Nat := t.micros / 1000000 % 60
def microsecond (t : Timestamp) : Nat := t.micros % 1000000
def millisecond (t : Timestamp) : Nat := t.microsecond / 1000

/-- The start of the same day in the same zone. -/
def startOfDay (t : Timestamp) : Timestamp :=
  { t with micros := 0, inDay := by decide }

/-! ## Counting microseconds -/

/-- What the wall clock shows, as microseconds since the start of 1970. -/
def wall (t : Timestamp) : Int :=
  ((t.date.ordinal : Int) - Date.epochOrdinal) * dayMicros + t.micros

/-- The instant in UTC, as microseconds since the start of 1970. -/
def instant (t : Timestamp) : Int :=
  match t.zone with
  | some z => t.wall - z.micros
  | none => t.wall

/-- The timestamp at which the wall clock shows that count, within the calendar. -/
def ofWall? (micros : Int) (zone : Option Zone) : Option Timestamp :=
  (Date.ofOrdinal? (micros / dayMicros + Date.epochOrdinal)).bind fun date =>
    if h : (micros % dayMicros).toNat < dayMicros then
      some ⟨date, (micros % dayMicros).toNat, h, zone⟩
    else none

/-- The timestamp `micros` later on the wall clock. -/
def shift (t : Timestamp) (micros : Int) : Except Fault Timestamp :=
  match ofWall? (t.wall + micros) t.zone with
  | some u => .ok u
  | none => .error .dateOutOfRange

/-- The microseconds from `u` to `t`; both have a zone or neither has. -/
def since (t u : Timestamp) : Except Fault Int :=
  if t.zone.isSome = u.zone.isSome then .ok (t.instant - u.instant) else .error .zonesMixed

/-! ## Epoch values -/

/-- Epoch seconds of a timestamp with a zone: the exact quotient, rounded once. -/
def zonedEpochSeconds (t : Timestamp) : Binary64 :=
  Binary64.ofIntRatio t.instant 1000000

/-- Epoch seconds of a timestamp without a zone: whole seconds and the fraction are rounded,
then their sum. -/
def localEpochSeconds (t : Timestamp) : Binary64 :=
  (Binary64.ofInt (t.wall / 1000000)).add (Binary64.ofRatio false t.microsecond 1000000)

/-- Epoch milliseconds.  Without a zone they exist only from the second day of the calendar
on, because the clock of the day before is looked at too. -/
def epochMillis (t : Timestamp) : Except Fault Int := do
  let seconds ← match t.zone with
    | some _ => pure t.zonedEpochSeconds
    | none =>
      if t.date.ordinal < 2 then throw (.yearOutOfRange 0) else pure t.localEpochSeconds
  Number.integerPart .toEven (seconds.mul (Binary64.ofInt 1000))

/-- The most seconds before and after 1970 for which the system's calendar has a year. -/
def systemSeconds : Int × Int := (-67768040609740800, 67768036191676799)

/-- The timestamp of epoch seconds, the fraction rounded to microseconds.  As with
`epochMillis`, the first day of the calendar is left out. -/
def ofEpochSeconds (seconds : Binary64) : Except Fault Timestamp := do
  match seconds.toInt? .towardZero with
  | none => throw (if seconds.isNan then .nanAsInteger else .epochOutOfRange)
  | some whole =>
    let part ← Number.integerPart .toEven (seconds.fraction.mul (Binary64.ofInt 1000000))
    let micros := whole * 1000000 + part
    let whole := micros / 1000000
    if whole < -(pow2 63) ∨ pow2 63 ≤ whole then throw .epochOutOfRange
    if whole < systemSeconds.1 ∨ systemSeconds.2 < whole then throw .epochRefused
    match ofWall? micros none with
    | none => throw (.yearOutOfRange (whole / 31556952 + 1970))
    | some t => if t.date.ordinal < 2 then throw (.yearOutOfRange 0) else return t

/-- The timestamp of epoch milliseconds. -/
def ofEpochMillis (millis : Number) : Except Fault Timestamp := do
  let seconds ← millis.div (.int 1000)
  ofEpochSeconds (← seconds.toFloat)

/-! ## Written form -/

/-- Hours, minutes, and what is not zero of seconds and microseconds, of an offset. -/
def offsetChars (z : Zone) : List Char :=
  let n := z.micros.natAbs
  let seconds := n / 1000000 % 60
  let micros := n % 1000000
  (if z.micros < 0 then '-' else '+') :: Date.padded 2 (n / 3600000000) ++
    ':' :: Date.padded 2 (n / 60000000 % 60) ++
    (if seconds = 0 && micros = 0 then [] else ':' :: Date.padded 2 seconds) ++
    (if micros = 0 then [] else '.' :: Date.padded 6 micros)

/-- Day and clock time with `mark` between them, microseconds only where there are some, and
the offset. -/
def isoWith (mark : Char) (t : Timestamp) : String :=
  String.ofList <|
    t.date.isoChars ++ mark :: Date.padded 2 t.hour ++ ':' :: Date.padded 2 t.minute ++
      ':' :: Date.padded 2 t.second ++
      (if t.microsecond = 0 then [] else '.' :: Date.padded 6 t.microsecond) ++
      (match t.zone with | some z => offsetChars z | none => [])

/-- Day and clock time with a `T` between them. -/
def iso (t : Timestamp) : String :=
  t.isoWith 'T'

end Timestamp

end NoteQuery
