/-
Quoted texts.

Two ways to write a text between quotes.  The data form has double quotes, escapes the
quote, the backslash and the control characters, and keeps every other character.  The
message form prefers single quotes and escapes whatever cannot be seen.
-/
import NoteQuery.Text.Printable

namespace NoteQuery.Text

/-- The hexadecimal digit of a value below sixteen. -/
def hexDigit (d : Nat) : Char :=
  if d < 10 then Char.ofNat (48 + d) else Char.ofNat (87 + d)

/-- The last `width` hexadecimal digits of a number. -/
def hex : (width : Nat) → Nat → List Char
  | 0, _ => []
  | width + 1, n => hex width (n / 16) ++ [hexDigit (n % 16)]

/-! ## The data form -/

/-- One character between double quotes. -/
def dataChar (c : Char) : List Char :=
  if c = '"' then ['\\', '"']
  else if c = '\\' then ['\\', '\\']
  else if c = '\n' then ['\\', 'n']
  else if c = '\r' then ['\\', 'r']
  else if c = '\t' then ['\\', 't']
  else if c = '\x08' then ['\\', 'b']
  else if c = '\x0c' then ['\\', 'f']
  else if c.toNat < 32 then '\\' :: 'u' :: hex 4 c.toNat
  else [c]

/-- The text between double quotes, as data formats write it. -/
def dataQuoted (s : String) : String :=
  String.ofList ('"' :: s.toList.flatMap dataChar ++ ['"'])

/-! ## The message form -/

/-- One character of a message text that stands between `quote`s. -/
def messageChar (quote c : Char) : List Char :=
  if c = quote || c = '\\' then ['\\', c]
  else if c = '\n' then ['\\', 'n']
  else if c = '\r' then ['\\', 'r']
  else if c = '\t' then ['\\', 't']
  else if isPrintable c then [c]
  else if c.toNat < 0x100 then '\\' :: 'x' :: hex 2 c.toNat
  else if c.toNat < 0x10000 then '\\' :: 'u' :: hex 4 c.toNat
  else '\\' :: 'U' :: hex 8 c.toNat

/-- Single quotes, unless the text has single quotes and no double ones. -/
def messageQuote (cs : List Char) : Char :=
  if cs.contains '\'' && !cs.contains '"' then '"' else '\''

/-- The text between quotes, as messages show it. -/
def messageQuoted (s : String) : String :=
  let quote := messageQuote s.toList
  String.ofList (quote :: s.toList.flatMap (messageChar quote) ++ [quote])

/-- Octets between quotes, as messages show them. -/
def octetsQuoted (octets : List UInt8) : String :=
  let cs := octets.map fun b => Char.ofNat b.toNat
  let quote := messageQuote cs
  let octet (c : Char) : List Char :=
    if c.toNat < 127 then messageChar quote c else '\\' :: 'x' :: hex 2 c.toNat
  String.ofList ('b' :: quote :: cs.flatMap octet ++ [quote])

end NoteQuery.Text
