/-
Plain data as JSON.

Data is written on one line, or over several with two more spaces on each level.  Binary numbers
that are not finite are written by name.
-/
import NoteQuery.Text.Quoted
import NoteQuery.Value.Basic

namespace NoteQuery.Json

/-- The form of a text: some characters may be escaped that need not be. -/
abbrev TextForm := String → String

/-- The text of a number. -/
def numberText : Number → String
  | .int n => String.ofList (Number.integerText n)
  | .float .nan => "NaN"
  | .float (.infinite s) => if s then "-Infinity" else "Infinity"
  | .float x => x.literal

/-- The text of data that holds no other data. -/
def scalar (form : TextForm) : Value → String
  | .bool b => if b then "true" else "false"
  | .number n => numberText n
  | .string s => form s
  | _ => "null"

/-- A key: texts are in use only. -/
def keyText (form : TextForm) : Value → String
  | .string s => form s
  | v => form (scalar form v)

/-! ## On one line -/

mutual

/-- Data on one line. -/
def compact (form : TextForm) : Value → String
  | .list items => "[" ++ Text.join ", " (compactItems form items) ++ "]"
  | .mapping _ entries => "\x7b" ++ Text.join ", " (compactEntries form entries) ++ "\x7d"
  | v => scalar form v

def compactItems (form : TextForm) : List Value → List String
  | [] => []
  | v :: vs => compact form v :: compactItems form vs

def compactEntries (form : TextForm) : List (Value × Value) → List String
  | [] => []
  | (k, v) :: rest => (keyText form k ++ ": " ++ compact form v) :: compactEntries form rest

end

/-! ## Over several lines -/

/-- A line end and the spaces of a level. -/
def newLine (level : Nat) : String :=
  String.ofList ('\n' :: List.replicate (2 * level) ' ')

/-- Parts between brackets, each on a line of its own. -/
def block (level : Nat) (opening closing : String) (parts : List String) : String :=
  if parts.isEmpty then opening ++ closing
  else
    opening ++ newLine (level + 1) ++ Text.join ("," ++ newLine (level + 1)) parts ++
      newLine level ++ closing

mutual

/-- Data over several lines, on a level. -/
def indented (form : TextForm) (level : Nat) : Value → String
  | .list items => block level "[" "]" (indentedItems form (level + 1) items)
  | .mapping _ entries => block level "\x7b" "\x7d" (indentedEntries form (level + 1) entries)
  | v => scalar form v

def indentedItems (form : TextForm) (level : Nat) : List Value → List String
  | [] => []
  | v :: vs => indented form level v :: indentedItems form level vs

def indentedEntries (form : TextForm) (level : Nat) : List (Value × Value) → List String
  | [] => []
  | (k, v) :: rest =>
    (keyText form k ++ ": " ++ indented form level v) :: indentedEntries form level rest

end

/-! ## Texts of ASCII -/

/-- A character by one or two units of sixteen bits. -/
def unitEscape (c : Char) : List Char :=
  let unit (n : Nat) : List Char := '\\' :: 'u' :: Text.hex 4 n
  if c.toNat < 0x10000 then unit c.toNat
  else
    let n := c.toNat - 0x10000
    unit (0xd800 + n / 0x400) ++ unit (0xdc00 + n % 0x400)

/-- A text between double quotes with all characters beyond ASCII escaped. -/
def asciiQuoted (s : String) : String :=
  let escaped (c : Char) : List Char :=
    if c.toNat < 127 then Text.dataChar c else unitEscape c
  String.ofList ('"' :: s.toList.flatMap escaped ++ ['"'])

end NoteQuery.Json
