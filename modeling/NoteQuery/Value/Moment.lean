/-
Timestamps from values.

A timestamp is itself, a day is its start, a number counts milliseconds from the start of 1970,
and a text is read as ISO 8601.
-/
import NoteQuery.Calendar.IsoReading
import NoteQuery.Value.Literal

namespace NoteQuery.Value

/-- The timestamp that a value stands for. -/
def toTimestamp (v : Value) : Except Fault Timestamp :=
  match v with
  | date d => .ok (.midnight d)
  | timestamp t => .ok t
  | number n => Timestamp.ofEpochMillis n
  | string s =>
    match Iso.read? (Text.trimChars s.toList) with
    | some t => .ok t
    | none => .error (.invalidDate v.literal)
  | v => do
    v.checkWritable
    .error (.invalidDate v.literal)

end NoteQuery.Value
