/-
Reading ISO 8601 timestamps.

A day as `YYYY-MM-DD`, `YYYYMMDD`, or by week and weekday; then, behind any one character, a
clock time of two-digit fields with or without colons, a fraction of any length of which six
digits count, and `Z` or an offset.
-/
import NoteQuery.Calendar.Timestamp
import NoteQuery.Text.Digit

namespace NoteQuery.Iso

/-- A number of exactly `n` ASCII digits, and what follows. -/
def takeDigits? (n : Nat) (cs : List Char) : Option (Nat × List Char) :=
  let ds := cs.take n
  if ds.length = n && ds.all Char.isDigit then some (Text.digitsValue ds, cs.drop n) else none

/-! ## Days -/

/-- How many characters of the text write the day. -/
def dateLength (cs : List Char) : Nat :=
  let digitAt (i : Nat) : Bool := (cs[i]?.map Char.isDigit).getD false
  if cs.length = 7 then 7
  else if cs[4]? = some '-' then
    if cs[5]? = some 'W' then
      if cs[8]? = some '-' && !(10 < cs.length && digitAt 10) then 10 else 8
    else 10
  else if cs[4]? = some 'W' then
    let stop := 7 + ((cs.drop 7).takeWhile Char.isDigit).length
    if stop < 9 then stop else if stop % 2 = 0 then 7 else 8
  else 8

/-- A year of 53 weeks. -/
def isLongYear (year : Nat) : Bool :=
  match Date.of? year 1 1 with
  | some d => d.weekday == 3 || d.weekday == 2 && Calendar.isLeap year
  | none => false

/-- The day of a week of a year, weeks counted from the one with the year's first Thursday. -/
def ofWeek? (year week day : Nat) : Option Date := do
  let first ← Date.of? year 1 1
  if week < 1 ∨ 53 < week ∨ week = 53 ∧ !isLongYear year then none
  if day < 1 ∨ 7 < day then none
  let monday : Int := first.ordinal - first.weekday + if 3 < first.weekday then 7 else 0
  Date.ofOrdinal? (monday + 7 * (week - 1) + (day - 1))

/-- The day that a text writes. -/
def readDate? (cs : List Char) : Option Date := do
  let (year, rest) ← takeDigits? 4 cs
  let (hyphens, rest) := match rest with
    | '-' :: r => (true, r)
    | r => (false, r)
  let hyphen? : List Char → Option (List Char)
    | '-' :: r => if hyphens then some r else none
    | r => if hyphens then none else some r
  match rest with
  | 'W' :: r =>
    let (week, r) ← takeDigits? 2 r
    if r.isEmpty then ofWeek? year week 1
    else
      let (day, r) ← takeDigits? 1 (← hyphen? r)
      if r.isEmpty then ofWeek? year week day else none
  | r =>
    let (month, r) ← takeDigits? 2 r
    let (day, r) ← takeDigits? 2 (← hyphen? r)
    if r.isEmpty then Date.of? year month day else none

/-! ## Clock times -/

/-- A clock time as it is read: hours, minutes, seconds, microseconds, and whether something
was left unread. -/
structure Clock where
  fields : List Nat
  micro : Nat
  leftover : Bool

/-- The number of seconds in the fields read so far; missing fields are zero. -/
def Clock.seconds (c : Clock) : Nat :=
  (c.fields.getD 0 0 * 60 + c.fields.getD 1 0) * 60 + c.fields.getD 2 0

/-- Six digits of the fraction, or as many as there are; further digits are passed over. -/
def readFraction? (fields : List Nat) (cs : List Char) : Option Clock := do
  let n := min 6 cs.length
  let (value, rest) ← takeDigits? n cs
  return ⟨fields, value * pow10 (6 - n), !(rest.dropWhile Char.isDigit).isEmpty⟩

/-- Reads the fields still `missing`.  The first character after the hours says whether the
fields are separated by colons. -/
def readFields? (colons : Option Bool) (fields : List Nat) :
    (missing : Nat) → List Char → Option Clock
  | 0, cs => readFraction? fields cs
  | missing + 1, cs =>
    match takeDigits? 2 cs with
    | none => none
    | some (value, rest) =>
      let fields := fields ++ [value]
      match rest with
      | [] => some ⟨fields, 0, false⟩
      | [_] => some ⟨fields, 0, true⟩
      | c :: more =>
        let colons := colons.getD (c == ':')
        if colons && c == ':' then readFields? (some colons) fields missing more
        else if c == '.' || c == ',' then readFraction? fields more
        else if !colons then readFields? (some colons) fields missing rest
        else none

/-- The zone that a sign and a clock time write. -/
def readOffset? (minus : Bool) (cs : List Char) : Option Zone := do
  let clock ← readFields? none [] 3 cs
  if clock.leftover then none
  let seconds := clock.seconds
  if seconds = 0 then return .utc
  Zone.of? (Binary64.signed minus (seconds * 1000000 + clock.micro))

/-- The timestamp of a day and the text of a clock time.  Unread characters before an offset
do no harm. -/
def readClock? (date : Date) (cs : List Char) : Option Timestamp := do
  let isZone (c : Char) : Bool := c == '+' || c == '-' || c == 'Z'
  let body := cs.takeWhile (!isZone ·)
  let clock ← readFields? none [] 3 body
  let stamp (zone : Option Zone) : Option Timestamp :=
    Timestamp.of? date (clock.fields.getD 0 0) (clock.fields.getD 1 0) (clock.fields.getD 2 0)
      clock.micro zone
  match cs.drop body.length with
  | [] => if clock.leftover then none else stamp none
  | 'Z' :: rest => if rest.isEmpty then stamp (some .utc) else none
  | c :: rest => stamp (some (← readOffset? (c == '-') rest))

/-- The timestamp that a text writes. -/
def read? (cs : List Char) : Option Timestamp := do
  if cs.length < 7 then none
  let n := dateLength cs
  let date ← readDate? (cs.take n)
  match cs.drop n with
  | [] => return Timestamp.midnight date
  | _ :: rest => readClock? date rest

end NoteQuery.Iso
