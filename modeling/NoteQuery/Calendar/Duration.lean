/-
Durations.

A duration is a list of parts, each an amount of one calendar unit, in the order in which they
are applied.  The reader takes one or more parts, each a signed number and the name of a unit
that no ASCII letter follows; blanks may stand around both.
-/
import NoteQuery.Number.Reading

namespace NoteQuery

/-- The units of a duration. -/
inductive TimeUnit where
  | year | month | week | day | hour | minute | second | millisecond
deriving DecidableEq

namespace TimeUnit

/-- All units, the longest first. -/
def all : List TimeUnit := [year, month, week, day, hour, minute, second, millisecond]

/-- The full name. -/
def name : TimeUnit → String
  | year => "year"
  | month => "month"
  | week => "week"
  | day => "day"
  | hour => "hour"
  | minute => "minute"
  | second => "second"
  | millisecond => "millisecond"

/-- The length in milliseconds, a year being 365 and a month 30 days. -/
def millis : TimeUnit → Nat
  | year => 31536000000
  | month => 2592000000
  | week => 604800000
  | day => 86400000
  | hour => 3600000
  | minute => 60000
  | second => 1000
  | millisecond => 1

/-- Every spelling of a unit.  A capital `M` is a month, a small one a minute. -/
def spellings : List (String × TimeUnit) := [
  ("y", year), ("year", year), ("years", year),
  ("M", month), ("month", month), ("months", month),
  ("w", week), ("week", week), ("weeks", week),
  ("d", day), ("day", day), ("days", day),
  ("h", hour), ("hour", hour), ("hours", hour),
  ("m", minute), ("minute", minute), ("minutes", minute),
  ("s", second), ("second", second), ("seconds", second),
  ("ms", millisecond), ("millisecond", millisecond), ("milliseconds", millisecond)]

/-- The unit with that spelling. -/
def ofSpelling? (s : String) : Option TimeUnit :=
  spellings.lookup s

end TimeUnit

/-- An amount of one unit. -/
structure DurationPart where
  unit : TimeUnit
  amount : Number
deriving DecidableEq

/-- Parts in the order in which they are applied. -/
structure Duration where
  parts : List DurationPart
deriving DecidableEq

namespace Duration

/-- The sum of the parts in milliseconds. -/
def toMillis (d : Duration) : Except Fault Number := do
  let terms ← d.parts.mapM fun p => Number.mul (.int p.unit.millis) p.amount
  Number.sum terms

/-- Every amount times a number. -/
def scaled (d : Duration) (factor : Number) : Except Fault Duration := do
  let parts ← d.parts.mapM fun p => do
    return ({ p with amount := ← p.amount.mul factor } : DurationPart)
  return ⟨parts⟩

/-- The parts of the first, then those of the second. -/
def append (d e : Duration) : Duration :=
  ⟨d.parts ++ e.parts⟩

/-- Amount and unit name of each part. -/
def partText (p : DurationPart) : String :=
  p.amount.display ++ p.unit.name

/-- The parts as amount and unit name, with spaces between them. -/
def display (d : Duration) : String :=
  " ".intercalate (d.parts.map partText)

/-! ## Reading -/

/-- A number as an integer if it has no fraction. -/
def wholeIfPossible (x : Binary64) : Number :=
  if x.isInteger then
    match x.toInt? .towardZero with
    | some n => .int n
    | none => .float x
  else .float x

/-- A sign, digits, and a fraction with digits, and what follows. -/
def readAmount? (cs : List Char) : Option (Number × List Char) :=
  let (minus, body) := Binary64.takeSign cs
  let whole := body.takeWhile Text.isDigit
  let rest := body.drop whole.length
  if whole.isEmpty then none
  else
    let (part, rest) := match rest with
      | '.' :: r =>
        let ds := r.takeWhile Text.isDigit
        if ds.isEmpty then ([], rest) else (ds, r.drop ds.length)
      | r => ([], r)
    let x := Binary64.ofDecimal minus (Text.digitsValue (whole ++ part)) (-part.length)
    some (wholeIfPossible x, rest)

/-- One part with the blanks around it, and what follows. -/
def readPart? (cs : List Char) : Option (DurationPart × List Char) := do
  let (amount, rest) ← readAmount? (Text.trimLeft cs)
  let rest := Text.trimLeft rest
  let word := rest.takeWhile Char.isAlpha
  let unit ← TimeUnit.ofSpelling? (String.ofList word)
  return (⟨unit, amount⟩, Text.trimLeft (rest.drop word.length))

/-- Parts up to the end of the text; none where something else stands. -/
def readParts? (cs : List Char) : Option (List DurationPart) :=
  match readPart? cs with
  | none => none
  | some (p, rest) =>
    if rest.isEmpty then some [p]
    else if _h : rest.length < cs.length then (readParts? rest).map (p :: ·)
    else none
termination_by cs.length

/-- The duration that a text writes. -/
def ofText? (s : String) : Option Duration :=
  (readParts? s.toList).map Duration.mk

/-- The duration that a text writes, or the fault that it writes none. -/
def ofText (s : String) : Except Fault Duration :=
  match ofText? s with
  | some d => .ok d
  | none => .error (.invalidDuration (Text.messageQuoted s))

end Duration

end NoteQuery
