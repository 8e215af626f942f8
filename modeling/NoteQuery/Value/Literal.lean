/-
The literal form of values.

The form in which messages quote a value: every part is spelled out, texts stand between
quotes, and the kinds that have no notation of their own are written as a name with their
parts in parentheses.
-/
import NoteQuery.Text.Quoted
import NoteQuery.Value.Key

namespace NoteQuery

/-- The texts with commas between them. -/
def Text.commaList (parts : List String) : String :=
  Text.join ", " parts

namespace Value

def numeral (n : Nat) : String :=
  String.ofList (Number.integerText n)

/-- A span of time by days, seconds and microseconds, parts that are zero left out. -/
def spanLiteral (micros : Int) : String :=
  let days := micros / Calendar.dayMicros
  let seconds := micros % Calendar.dayMicros / 1000000
  let rest := micros % 1000000
  let part (name : String) (n : Int) : List String :=
    if n = 0 then [] else [name ++ "=" ++ String.ofList (Number.integerText n)]
  let parts := part "days" days ++ part "seconds" seconds ++ part "microseconds" rest
  "datetime.timedelta(" ++ (if parts.isEmpty then "0" else Text.commaList parts) ++ ")"

def zoneLiteral (z : Zone) : String :=
  if z.micros = 0 then "datetime.timezone.utc"
  else "datetime.timezone(" ++ spanLiteral z.micros ++ ")"

def dateLiteral (d : Date) : String :=
  "datetime.date(" ++ Text.commaList [numeral d.year, numeral d.month, numeral d.day] ++ ")"

/-- Year to minute, seconds and microseconds unless they and what follows are zero, and the
zone. -/
def timestampLiteral (t : Timestamp) : String :=
  let tail := if t.microsecond ≠ 0 then [t.second, t.microsecond]
    else if t.second ≠ 0 then [t.second] else []
  let fields := [t.date.year, t.date.month, t.date.day, t.hour, t.minute] ++ tail
  let zone := match t.zone with
    | some z => ["tzinfo=" ++ zoneLiteral z]
    | none => []
  "datetime.datetime(" ++ Text.commaList (fields.map numeral ++ zone) ++ ")"

def partLiteral (p : DurationPart) : String :=
  "DurationPart(unit=" ++ Text.messageQuoted p.unit.name ++ ", value=" ++ p.amount.literal ++ ")"

/-- A row in parentheses; a single member is followed by a comma. -/
def rowLiteral : List String → String
  | [part] => "(" ++ part ++ ",)"
  | parts => "(" ++ Text.commaList parts ++ ")"

def durationLiteral (d : Duration) : String :=
  "Duration(parts=" ++ rowLiteral (d.parts.map partLiteral) ++ ")"

/-- A name with named parts. -/
def recordLiteral (name : String) (parts : List (String × String)) : String :=
  name ++ "(" ++ Text.commaList (parts.map fun (field, text) => field ++ "=" ++ text) ++ ")"

def listLiteral (items : List String) : String :=
  "[" ++ Text.commaList items ++ "]"

def mappingLiteral (entries : List String) : String :=
  "\x7b" ++ Text.commaList entries ++ "\x7d"

def setLiteral (items : List String) : String :=
  if items.isEmpty then "set()" else "\x7b" ++ Text.commaList items ++ "\x7d"

mutual

/-- The literal form. -/
def literal : Value → String
  | null => "None"
  | bool b => if b then "True" else "False"
  | number n => n.literal
  | string s => Text.messageQuoted s
  | date d => dateLiteral d
  | timestamp t => timestampLiteral t
  | duration d => durationLiteral d
  | pattern p =>
    recordLiteral "Pattern"
      [("body", Text.messageQuoted p.body), ("flags", Text.messageQuoted p.flags)]
  | link path display =>
    recordLiteral "Link" [("path", Text.messageQuoted path), ("display", display.literal)]
  | file r => fileLiteral r
  | html s => recordLiteral "Html" [("html", Text.messageQuoted s)]
  | image s => recordLiteral "Image" [("source", Text.messageQuoted s)]
  | icon s => recordLiteral "Icon" [("name", Text.messageQuoted s)]
  | list items => listLiteral (literals items)
  | mapping _ entries => mappingLiteral (entryLiterals entries)
  | set items => setLiteral (literals items)
  | bytes octets => Text.octetsQuoted octets
  | cycle => "\x7b...\x7d"

def literals : List Value → List String
  | [] => []
  | v :: vs => v.literal :: literals vs

def entryLiterals : Entries → List String
  | [] => []
  | (k, v) :: rest => (k.literal ++ ": " ++ v.literal) :: entryLiterals rest

def fileLiteral : FileRecord Value → String
  | ⟨name, path, basename, folder, ext, size, ctime, mtime, properties, tags, links, embeds,
      backlinks, raw⟩ =>
    let quoted := Text.messageQuoted
    recordLiteral "FileRecord" [
      ("name", quoted name), ("path", quoted path), ("basename", quoted basename),
      ("folder", quoted folder), ("ext", quoted ext),
      ("size", String.ofList (Number.integerText size)),
      ("ctime", timestampLiteral ctime), ("mtime", timestampLiteral mtime),
      ("properties", mappingLiteral (entryLiterals properties)),
      ("tags", listLiteral (literals tags)), ("links", listLiteral (literals links)),
      ("embeds", listLiteral (literals embeds)),
      ("backlinks", listLiteral (literals backlinks)), ("raw", quoted raw)]

end

mutual

/-- The value has a literal form: every integer in it can be written. -/
def isWritable : Value → Bool
  | number n => n.isWritable
  | duration d => d.parts.all (·.amount.isWritable)
  | link _ display => display.isWritable
  | file r => fileIsWritable r
  | list items | set items => areWritable items
  | mapping _ entries => entriesAreWritable entries
  | _ => true

def areWritable : List Value → Bool
  | [] => true
  | v :: vs => v.isWritable && areWritable vs

def entriesAreWritable : Entries → Bool
  | [] => true
  | (k, v) :: rest => k.isWritable && v.isWritable && entriesAreWritable rest

def fileIsWritable : FileRecord Value → Bool
  | ⟨_, _, _, _, _, size, _, _, properties, tags, links, embeds, backlinks, _⟩ =>
    (Number.int size).isWritable && entriesAreWritable properties && areWritable tags &&
      areWritable links && areWritable embeds && areWritable backlinks

end

/-- The value can be written in literal form. -/
def checkWritable (v : Value) : Except Fault Unit :=
  if v.isWritable then .ok () else .error .integerTooLong

/-- The text of a key: texts and patterns as they are, days and timestamps by their digits,
everything else in literal form. -/
def keyText : Value → String
  | string s => s
  | date d => d.iso
  | timestamp t => t.isoWith ' '
  | pattern p => p.display
  | v => v.literal

end Value

end NoteQuery
