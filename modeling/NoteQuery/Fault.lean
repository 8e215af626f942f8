/-
Faults.

Whatever can go wrong below the level of a query: a number outside its range, a text that is
no date, a pattern that does not read, a file that is not there.  A fault is its cause; the
wording stands in `Fault.message`, and `Fault.kind` says which family of mishaps it belongs
to, since callers treat families alike.
-/
import NoteQuery.Text.Utf8

namespace NoteQuery

/-- A cause of failure. -/
inductive Fault where
  /-- An integer beyond the binary numbers. -/
  | integerTooLarge
  /-- A quotient of integers beyond the binary numbers. -/
  | quotientTooLarge
  /-- An infinity where an integer is needed. -/
  | infinityAsInteger
  /-- No number where an integer is needed. -/
  | nanAsInteger
  /-- A remainder that does not exist. -/
  | noRemainder
  /-- A numeral with more digits than are read. -/
  | tooManyDigits (digits : Nat)
  /-- An integer with more digits than are written. -/
  | integerTooLong
  /-- More places behind the point than are written. -/
  | tooManyPlaces
  /-- A year that the calendar does not have. -/
  | yearOutOfRange (year : Int)
  /-- A shift beyond the ends of the calendar. -/
  | dateOutOfRange
  /-- A span longer than a span may be. -/
  | spanTooLong
  /-- Epoch seconds that no clock counts. -/
  | epochOutOfRange
  /-- Epoch seconds that the system's calendar refuses. -/
  | epochRefused
  /-- A date of the calendar that does not exist. -/
  | noSuchDay
  /-- A month, an hour, a minute or a second outside its range. -/
  | partOutOfRange (part : String) (least greatest : Nat)
  /-- A zone a day or more away, in minutes. -/
  | offsetOutOfRange (minutes : Int)
  /-- A text that is no integer in the base, as messages quote it. -/
  | notAnInteger (base : Nat) (quoted : String)
  /-- A text that is no number, as messages quote it. -/
  | notANumeral (quoted : String)
  /-- A numeral without any character. -/
  | emptyNumeral
  /-- An escape beyond the last character. -/
  | noSuchCharacter
  /-- An escape beyond the numbers of characters. -/
  | codePointTooLarge
  /-- A timestamp with a zone beside one without. -/
  | zonesMixed
  /-- A value that is no date, as messages quote it. -/
  | invalidDate (quoted : String)
  /-- A text that is no duration, as messages quote it. -/
  | invalidDuration (quoted : String)
  /-- Something other than a text where a duration is to be read. -/
  | durationNeedsText
  /-- A pattern flag that is not known. -/
  | invalidFlag (flag : Char)
  /-- A pattern body that does not read, and why. -/
  | invalidPattern (body reason : String)
  /-- A repetition count beyond the largest that a pattern may have. -/
  | repeatTooLarge
  /-- A pattern for letters of one script and of all. -/
  | scriptsClash
  /-- A call with too few or too many arguments. -/
  | argumentCount
  /-- A value of a kind for which the operation is not defined. -/
  | wrongKind
  /-- A value that lacks the part that the operation needs. -/
  | missingPart
  /-- An entry that must be there is not. -/
  | missingKey (key : String)
  /-- A value that contains itself. -/
  | selfContaining
  /-- A function name that is not registered. -/
  | unknownFunction (name : String)
  /-- A name that is no member of a closed list. -/
  | unknownMember (name : String)
  /-- A text that is neither true nor false, as messages quote it. -/
  | invalidBoolean (quoted : String)
  /-- An output format that does not exist. -/
  | unsupportedFormat (format : String)
  /-- A path where a directory is needed. -/
  | notADirectory (path : String)
  /-- A directory where a file is needed. -/
  | isADirectory (path : String)
  /-- A path that leads nowhere. -/
  | noSuchFile (path : String)
  /-- A path on which a file stands where a directory is needed. -/
  | blockedPath (path : String)
  /-- A path, or a name in it, longer than the system's paths and names. -/
  | pathTooLong (path : String)
  /-- Octets that are no text. -/
  | unreadableText (place : Text.BrokenPlace)
deriving DecidableEq

namespace Fault

/-- Families of faults that callers treat alike. -/
inductive Kind where
  | value | overflow | type | attribute | key | position | recursion | system | notADirectory
  | isADirectory | noSuchFile | encoding
deriving DecidableEq

/-- The family of a fault. -/
def kind : Fault → Kind
  | integerTooLarge | quotientTooLarge | infinityAsInteger | dateOutOfRange | spanTooLong
  | epochOutOfRange | repeatTooLarge | codePointTooLarge => .overflow
  | nanAsInteger | noRemainder | tooManyDigits _ | integerTooLong | tooManyPlaces | yearOutOfRange _
  | noSuchDay
  | partOutOfRange .. | offsetOutOfRange _ | notAnInteger .. | notANumeral _ | noSuchCharacter
  | invalidDate _ | invalidDuration _ | durationNeedsText | invalidFlag _ | invalidPattern ..
  | scriptsClash | unknownFunction _ | unknownMember _ | invalidBoolean _
  | unsupportedFormat _ => .value
  | zonesMixed | argumentCount | wrongKind => .type
  | missingPart => .attribute
  | missingKey _ => .key
  | emptyNumeral => .position
  | selfContaining => .recursion
  | epochRefused | pathTooLong _ => .system
  | notADirectory _ | blockedPath _ => .notADirectory
  | isADirectory _ => .isADirectory
  | noSuchFile _ => .noSuchFile
  | unreadableText _ => .encoding

/-- The literal form of a span of seconds other than none. -/
def spanLiteral (seconds : Int) : String :=
  let days := seconds / 86400
  let rest := seconds % 86400
  let parts := (if days = 0 then [] else ["days=" ++ toString days]) ++
    (if rest = 0 then [] else ["seconds=" ++ toString rest])
  "datetime.timedelta(" ++ ", ".intercalate parts ++ ")"

/-- The wording of a fault. -/
def message : Fault → String
  | integerTooLarge => "int too large to convert to float"
  | quotientTooLarge => "integer division result too large for a float"
  | infinityAsInteger => "cannot convert float infinity to integer"
  | nanAsInteger => "cannot convert float NaN to integer"
  | noRemainder => "math domain error"
  | tooManyDigits digits =>
    "Exceeds the limit (4300 digits) for integer string conversion: value has " ++
      toString digits ++ " digits; use sys.set_int_max_str_digits() to increase the limit"
  | integerTooLong =>
    "Exceeds the limit (4300 digits) for integer string conversion; " ++
      "use sys.set_int_max_str_digits() to increase the limit"
  | tooManyPlaces => "precision too big"
  | yearOutOfRange y => "year " ++ toString y ++ " is out of range"
  | dateOutOfRange => "date value out of range"
  | spanTooLong => "span too long"
  | epochOutOfRange => "timestamp out of range for platform time_t"
  | epochRefused => "[Errno 75] Value too large for defined data type"
  | noSuchDay => "day is out of range for month"
  | partOutOfRange part least greatest =>
    part ++ " must be in " ++ toString least ++ ".." ++ toString greatest
  | offsetOutOfRange minutes =>
    "offset must be a timedelta strictly between -timedelta(hours=24) and " ++
      "timedelta(hours=24), not " ++ spanLiteral (60 * minutes) ++ "."
  | notAnInteger base quoted =>
    "invalid literal for int() with base " ++ toString base ++ ": " ++ quoted
  | notANumeral quoted => "could not convert string to float: " ++ quoted
  | emptyNumeral => "string index out of range"
  | noSuchCharacter => "chr() arg not in range(0x110000)"
  | codePointTooLarge => "signed integer is greater than maximum"
  | zonesMixed => "can't subtract offset-naive and offset-aware datetimes"
  | invalidDate quoted => "Invalid date: " ++ quoted
  | invalidDuration quoted => "Invalid duration: " ++ quoted
  | durationNeedsText => "duration() requires a duration string"
  | invalidFlag flag => "Invalid pattern flag '" ++ flag.toString ++ "'"
  | invalidPattern body reason => "Invalid pattern /" ++ body ++ "/: " ++ reason
  | repeatTooLarge => "the repetition number is too large"
  | scriptsClash => "ASCII and UNICODE flags are incompatible"
  | argumentCount => "wrong number of arguments"
  | wrongKind => "unsupported kind of value"
  | missingPart => "the value has no such part"
  | missingKey key => Text.messageQuoted key
  | selfContaining => "the value contains itself"
  | unknownFunction name => "Unknown function: " ++ name
  | unknownMember name => Text.messageQuoted name ++ " is not a member"
  | invalidBoolean quoted => "Invalid boolean value: " ++ quoted
  | unsupportedFormat format => "Unsupported output format: " ++ format
  | notADirectory path => "Not a directory: " ++ path
  | isADirectory path => "[Errno 21] Is a directory: " ++ Text.messageQuoted path
  | noSuchFile path => "[Errno 2] No such file or directory: " ++ Text.messageQuoted path
  | blockedPath path => "[Errno 20] Not a directory: " ++ Text.messageQuoted path
  | pathTooLong path => "[Errno 36] File name too long: " ++ Text.messageQuoted path
  | unreadableText place => place.message

end Fault

end NoteQuery
