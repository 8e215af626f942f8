/-
Tags of YAML.

A plain scalar belongs to the first sort whose form it has: a truth value, a binary number, an
integer, the sign of merging, null, a timestamp, the sign of a value; else it is a text.
-/
import NoteQuery.Yaml.Cursor

namespace NoteQuery.Yaml.Tag

/-- What the tags of the standard begin with. -/
def lead : String := "tag:yaml.org,2002:"

def null : String := lead ++ "null"
def bool : String := lead ++ "bool"
def int : String := lead ++ "int"
def float : String := lead ++ "float"
def timestamp : String := lead ++ "timestamp"
def binary : String := lead ++ "binary"
def str : String := lead ++ "str"
def seq : String := lead ++ "seq"
def map : String := lead ++ "map"
def set : String := lead ++ "set"
def orderedMap : String := lead ++ "omap"
def pairs : String := lead ++ "pairs"
def merge : String := lead ++ "merge"
def value : String := lead ++ "value"

/-! ## Forms -/

/-- Words with their truth values, in small letters. -/
def truthWords : List (String × Bool) :=
  [("yes", true), ("no", false), ("true", true), ("false", false), ("on", true), ("off", false)]

/-- The word in small letters, in capitals, or with a capital in front. -/
def isCased (word : String) (cs : List Char) : Bool :=
  let small := word.toList
  cs == small || cs == small.map Char.toUpper ||
    cs == (small.take 1).map Char.toUpper ++ small.drop 1

def isTruth (cs : List Char) : Bool :=
  truthWords.any fun (word, _) => isCased word cs

def isNull (cs : List Char) : Bool :=
  cs.isEmpty || cs == ['~'] || isCased "null" cs

def isDigitOrGap (c : Char) : Bool :=
  c.isDigit || c == '_'

/-- What follows an optional sign. -/
def dropSign : List Char → List Char
  | '-' :: cs => cs
  | '+' :: cs => cs
  | cs => cs

/-- A power of ten with a sign, or nothing. -/
def isPower : List Char → Bool
  | [] => true
  | e :: s :: cs => (e == 'e' || e == 'E') && (s == '-' || s == '+') && !cs.isEmpty &&
    cs.all Char.isDigit
  | _ => false

/-- One or more parts of a colon and a number below sixty. -/
def isSixtieths : List Char → Bool
  | [] => false
  | [':', a] => a.isDigit
  | ':' :: a :: b :: cs =>
    if b = ':' then a.isDigit && isSixtieths (b :: cs)
    else '0' ≤ a && a ≤ '5' && b.isDigit && (cs.isEmpty || isSixtieths cs)
  | _ => false

/-- A binary number: with a point; in sixtieths; an infinity; no number. -/
def isFloat (cs : List Char) : Bool :=
  let body := dropSign cs
  let signed := body.length != cs.length
  match body with
  | '.' :: rest =>
    let digits := rest.takeWhile isDigitOrGap
    isCased "inf" rest || !signed && isCased "nan" rest ||
      !signed && (rest.headD ' ').isDigit && isPower (rest.drop digits.length)
  | c :: _ =>
    let whole := body.takeWhile isDigitOrGap
    let rest := body.drop whole.length
    c.isDigit &&
      match rest with
      | '.' :: part => isPower (part.dropWhile isDigitOrGap)
      | ':' :: _ =>
        let sixtieths := rest.takeWhile (· != '.')
        isSixtieths sixtieths &&
          match rest.drop sixtieths.length with
          | '.' :: part => part.all isDigitOrGap
          | _ => false
      | _ => false
  | [] => false

/-- An integer: in base two, eight, ten or sixteen, or in sixtieths. -/
def isInt (cs : List Char) : Bool :=
  match dropSign cs with
  | ['0'] => true
  | '0' :: 'b' :: c :: rest => (c :: rest).all fun c => c == '0' || c == '1' || c == '_'
  | '0' :: 'x' :: c :: rest => (c :: rest).all fun c => isHexDigit c || c == '_'
  | '0' :: rest => rest.all fun c => '0' ≤ c && c ≤ '7' || c == '_'
  | c :: rest =>
    let tail := rest.dropWhile isDigitOrGap
    c.isDigit && (tail.isEmpty || isSixtieths tail)
  | [] => false

/-- One or two digits and what follows them. -/
def shortNumber? : List Char → Option (Nat × List Char)
  | a :: b :: cs =>
    if a.isDigit && b.isDigit then some (10 * (a.toNat - 48) + (b.toNat - 48), cs)
    else if a.isDigit then some (a.toNat - 48, b :: cs)
    else none
  | [a] => if a.isDigit then some (a.toNat - 48, []) else none
  | [] => none

/-- Two digits and what follows them. -/
def twoDigits? : List Char → Option (Nat × List Char)
  | a :: b :: cs =>
    if a.isDigit && b.isDigit then some (10 * (a.toNat - 48) + (b.toNat - 48), cs) else none
  | _ => none

/-- A character and what follows it. -/
def sign? (c : Char) : List Char → Option (List Char)
  | d :: cs => if d = c then some cs else none
  | [] => none

/-- A zone: the offset in minutes, zero for universal time. -/
def zone? (cs : List Char) : Option Int :=
  match cs with
  | ['Z'] => some 0
  | s :: cs => do
    if s != '+' && s != '-' then none
    let (hours, rest) ← shortNumber? cs
    let minutes ← match rest with
      | [] => some 0
      | ':' :: rest => (twoDigits? rest).bind fun (n, rest) => if rest.isEmpty then some n else none
      | _ => none
    let offset : Int := 60 * hours + minutes
    return if s = '-' then -offset else offset
  | [] => none

/-- The parts of a time of day: a fraction in millionths, and a zone if there is one. -/
structure TimeParts where
  hour : Nat
  minute : Nat
  second : Nat
  micros : Nat := 0
  zone : Option Int := none

/-- The parts of a moment. -/
structure MomentParts where
  year : Nat
  month : Nat
  day : Nat
  time : Option TimeParts := none

/-- Digits behind a point as millionths; further ones are dropped. -/
def millionths (digits : List Char) : Nat :=
  ((digits ++ List.replicate 6 '0').take 6).foldl (fun n d => 10 * n + (d.toNat - 48)) 0

/-- A time of day up to the end. -/
def time? (cs : List Char) : Option TimeParts := do
  let (hour, cs) ← shortNumber? cs
  let (minute, cs) ← (sign? ':' cs).bind twoDigits?
  let (second, cs) ← (sign? ':' cs).bind twoDigits?
  let (micros, cs) := match cs with
    | '.' :: rest => (millionths (rest.takeWhile Char.isDigit), rest.dropWhile Char.isDigit)
    | cs => (0, cs)
  if cs.isEmpty then return { hour, minute, second, micros }
  let zone ← zone? (cs.dropWhile fun c => c == ' ' || c == '\t')
  return { hour, minute, second, micros, zone }

/-- A day up to the end, or a day and a time of day behind a letter or blanks. -/
def moment? (cs : List Char) : Option MomentParts := do
  let (century, cs) ← twoDigits? cs
  let (years, cs) ← twoDigits? cs
  let (month, cs) ← (sign? '-' cs).bind shortNumber?
  let (day, cs) ← (sign? '-' cs).bind shortNumber?
  let date : MomentParts := { year := 100 * century + years, month, day }
  match cs with
  | [] => return date
  | c :: rest =>
    let cs := if c = 'T' || c = 't' then rest else cs.dropWhile fun c => c == ' ' || c == '\t'
    if cs.length = rest.length + 1 then none
    return { date with time := some (← time? cs) }

/-- A moment; a day without a time has two digits for month and day. -/
def isTimestamp (cs : List Char) : Bool :=
  match moment? cs with
  | some parts => parts.time.isSome || cs.length == 10
  | none => false

/-- The tag that the form of a scalar calls for.  A line end behind it does not count. -/
def ofForm (text : List Char) : String :=
  let cs := if text.getLast? == some '\n' then text.dropLast else text
  if isTruth cs then bool
  else if isFloat cs then float
  else if isInt cs then int
  else if cs == ['<', '<'] then merge
  else if isNull cs && (cs == text || !cs.isEmpty) then null
  else if isTimestamp cs then timestamp
  else if cs == ['='] then value
  else str

end NoteQuery.Yaml.Tag
