/-
Moving timestamps, and putting them into words.

Years and months move the calendar fields, the day being cut to the length of the month that
is reached; every other unit adds a span of microseconds.
-/
import NoteQuery.Calendar.Duration
import NoteQuery.Calendar.Timestamp
import NoteQuery.Text.Cut

namespace NoteQuery

open Calendar

/-- Milliseconds as microseconds, rounded to the nearest and on a tie to the even one. -/
def spanMicros (millis : Number) : Except Fault Int := do
  let micros ← match millis with
    | .int n => pure (n * 1000)
    | .float x =>
      let whole ← Number.integerPart .towardZero x
      let part := x.fraction.mul (Binary64.ofInt 1000)
      let more ← Number.integerPart .towardZero part
      let total := whole * 1000 + more
      match part.fraction with
      | .finite s m e _ =>
        let (num, den) := Binary64.onGrid m 1 (-e)
        let step : Int := if s then -1 else 1
        pure (if den < 2 * num ∨ den = 2 * num ∧ total % 2 = 1 then total + step else total)
      | _ => pure total
  let days := micros / dayMicros
  if days < -999999999 ∨ 999999999 < days then throw .spanTooLong
  return micros

/-- The same day so many months later, cut to the length of the month. -/
def Date.shiftMonths (d : Date) (months : Int) : Except Fault Date :=
  let total := d.year * 12 + (d.month - 1) + months
  let year := total / 12
  let month := (total % 12).toNat + 1
  if year < -(pow2 31) ∨ pow2 31 ≤ year then .error .dateOutOfRange
  else
    match Date.of? year.toNat month (min d.day (daysInMonth year.toNat month)) with
    | some date => .ok date
    | none => .error (.yearOutOfRange year)

namespace Timestamp

/-- The same time of day so many months later, the day cut to the length of the month. -/
def shiftMonths (t : Timestamp) (months : Int) : Except Fault Timestamp :=
  (t.date.shiftMonths months).map fun date => { t with date }

/-- The timestamp so many milliseconds later. -/
def shiftMillis (t : Timestamp) (millis : Number) : Except Fault Timestamp := do
  t.shift (← spanMicros millis)

/-- The timestamp moved by one part. -/
def applyPart (t : Timestamp) (unit : TimeUnit) (amount : Number) : Except Fault Timestamp := do
  match unit with
  | .year => t.shiftMonths ((← amount.trunc) * 12)
  | .month => t.shiftMonths (← amount.trunc)
  | unit => t.shiftMillis (← Number.mul (.int unit.millis) amount)

/-- The timestamp moved by the parts of a duration in their order, each taken `sign` times. -/
def apply (t : Timestamp) (d : Duration) (sign : Int) : Except Fault Timestamp :=
  d.parts.foldlM (fun t p => do t.applyPart p.unit (← p.amount.mul (.int sign))) t

/-! ## Words -/

/-- The text with `YYYY`, `MM`, `DD`, `HH`, `mm`, `ss` and `SSS` replaced by the fields, one
token after the other. -/
def format (t : Timestamp) (layout : String) : String :=
  let put (token : String) (width n : Nat) (cs : List Char) : List Char :=
    Text.replaceChars token.toList (Date.padded width n) cs
  String.ofList <|
    put "SSS" 3 t.millisecond <| put "ss" 2 t.second <| put "mm" 2 t.minute <|
    put "HH" 2 t.hour <| put "DD" 2 t.date.day <| put "MM" 2 t.date.month <|
    put "YYYY" 4 t.date.year layout.toList

/-- The first of the units that the magnitude reaches, with its count rounded half up. -/
def phraseCount? (magnitude : Binary64) : List TimeUnit → Option (TimeUnit × Int)
  | [] => none
  | unit :: units =>
    let length := Binary64.ofInt unit.millis
    if magnitude.compare? length == some .lt then phraseCount? magnitude units
    else
      let half := Binary64.ofRatio false 1 2
      (((magnitude.div length).add half).toInt? .down).map fun n => (unit, n)

/-- Where the timestamp lies from `now`: "in 3 days", "2 hours ago", "just now". -/
def phrase (t now : Timestamp) : Except Fault String := do
  let millis := Binary64.ofIntRatio (← t.since now) 1000
  match phraseCount? millis.abs (TimeUnit.all.filter (· != .millisecond)) with
  | none => return "just now"
  | some (unit, count) =>
    let n := String.ofList (Number.integerText count)
    let label := if count = 1 then unit.name else unit.name ++ "s"
    let words := n ++ " " ++ label
    return if millis.negative && !millis.isZero then words ++ " ago" else "in " ++ words

end Timestamp

end NoteQuery
