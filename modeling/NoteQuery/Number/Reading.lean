/-
Reading numbers.

A written number has a sign, digits of any script with single underscores between them, a
point, and a power of ten; or it names an infinity or no number.
-/
import NoteQuery.Number.Basic
import NoteQuery.Text.Blank
import NoteQuery.Text.Digit

namespace NoteQuery

/-- Digits of any script as ASCII digits. -/
def Text.asciiDigit (c : Char) : Char :=
  match Text.digitValue? c with
  | some d => Text.digitChar d
  | none => c

namespace Binary64

/-- Takes out the underscores, if each stands between two digits. -/
def withoutSeparators? (afterDigit : Bool) : List Char → Option (List Char)
  | [] => some []
  | '_' :: c :: cs =>
    if afterDigit && c.isDigit then (withoutSeparators? true cs).map (c :: ·) else none
  | '_' :: [] => none
  | c :: cs => (withoutSeparators? c.isDigit cs).map (c :: ·)

/-- An optional sign and what follows it; true for minus. -/
def takeSign : List Char → Bool × List Char
  | '-' :: cs => (true, cs)
  | '+' :: cs => (false, cs)
  | cs => (false, cs)

/-- A power of ten up to the end of the text. -/
def readExponent? : List Char → Option Int
  | [] => some 0
  | c :: cs =>
    if c = 'e' || c = 'E' then
      let (minus, ds) := takeSign cs
      if ds.isEmpty || !ds.all Char.isDigit then none
      else some (Binary64.signed minus (Text.digitsValue ds))
    else none

/-- Digits, a point among them or at an end, and a power of ten. -/
def readMagnitude? (negative : Bool) (cs : List Char) : Option Binary64 :=
  let whole := cs.takeWhile Char.isDigit
  let rest := cs.drop whole.length
  let (part, rest) := match rest with
    | '.' :: r => (r.takeWhile Char.isDigit, r.dropWhile Char.isDigit)
    | r => ([], r)
  if whole.isEmpty && part.isEmpty then none
  else
    (readExponent? rest).map fun e =>
      ofDecimal negative (Text.digitsValue (whole ++ part)) (e - part.length)

/-- The binary number that a text writes. -/
def ofChars? (cs : List Char) : Option Binary64 :=
  let (minus, body) := takeSign ((Text.trimChars cs).map Text.asciiDigit)
  let word := String.ofList (body.map Char.toLower)
  if word = "inf" || word = "infinity" then some (.infinite minus)
  else if word = "nan" then some .nan
  else (withoutSeparators? false body).bind (readMagnitude? minus)

end Binary64

/-- The integer that a text writes: a sign and digits, at most 4300 of them. -/
def Number.integer? (cs : List Char) : Option Int :=
  let (minus, body) := Binary64.takeSign ((Text.trimChars cs).map Text.asciiDigit)
  match Binary64.withoutSeparators? false body with
  | some digits@(_ :: _) =>
    if digits.all Char.isDigit && digits.length ≤ 4300 then
      some (Binary64.signed minus (Text.digitsValue digits))
    else none
  | _ => none

/-- The number of a numeral made of digits with at most one point: an integer without a point,
else a binary number.  Integers of more than 4300 digits are not read. -/
def Number.ofNumeral (cs : List Char) : Except Fault Number :=
  let whole := cs.takeWhile (· != '.')
  match cs.drop whole.length with
  | [] =>
    if 4300 < cs.length then .error (.tooManyDigits cs.length)
    else .ok (.int (Text.digitsValue cs))
  | _ :: part =>
    .ok (.float (Binary64.ofDecimal false (Text.digitsValue (whole ++ part)) (-part.length)))

end NoteQuery
