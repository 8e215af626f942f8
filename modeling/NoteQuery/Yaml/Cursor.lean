/-
Places in a text of YAML.

A cursor is a place together with the characters from there on.  Behind the last character the
cursor sees a null character, which no text of YAML holds.
-/
namespace NoteQuery.Yaml

/-- A place in a text: how many characters are before it, and its line and column, all from
zero. -/
structure Mark where
  index : Nat := 0
  line : Nat := 0
  column : Nat := 0
deriving DecidableEq

instance : Inhabited Mark := ⟨{}⟩

/-! ## Classes of characters -/

def isLineEnd (c : Char) : Bool :=
  c == '\n' || c == '\r' || c == '\x85' || c == '\u2028' || c == '\u2029'

/-- A line end, or the end of the text. -/
def endsLine (c : Char) : Bool :=
  c == '\x00' || isLineEnd c

/-- A space, a line end, or the end of the text. -/
def endsPart (c : Char) : Bool :=
  c == ' ' || endsLine c

/-- A space, a tab, a line end, or the end of the text. -/
def endsWord (c : Char) : Bool :=
  c == '\t' || endsPart c

/-- A letter or digit of ASCII, a hyphen or an underscore. -/
def isNameChar (c : Char) : Bool :=
  c.isAlphanum || c == '-' || c == '_'

def isHexDigit (c : Char) : Bool :=
  c.isDigit || 'a' ≤ c && c ≤ 'f' || 'A' ≤ c && c ≤ 'F'

/-- The number that hexadecimal digits write. -/
def hexNumber (cs : List Char) : Nat :=
  cs.foldl (fun n c =>
    16 * n + (if c.isDigit then c.toNat - 48 else (c.toLower.toNat - 97) + 10)) 0

/-! ## Moving -/

/-- The place behind a character.  A carriage return before a line feed ends no line of its
own, and a byte order mark takes no column. -/
def Mark.past (m : Mark) (c : Char) (rest : List Char) : Mark :=
  if isLineEnd c && !(c == '\r' && rest.head? == some '\n') then ⟨m.index + 1, m.line + 1, 0⟩
  else if c = '\ufeff' then { m with index := m.index + 1 }
  else { m with index := m.index + 1, column := m.column + 1 }

/-- A place, and the characters from there on. -/
structure Cursor where
  mark : Mark := {}
  rest : List Char

instance : Inhabited Cursor := ⟨{ rest := [] }⟩

namespace Cursor

/-- The character `n` places ahead. -/
def look (c : Cursor) (n : Nat) : Char :=
  c.rest.getD n '\x00'

/-- The character at the cursor. -/
def next (c : Cursor) : Char :=
  c.look 0

def atEnd (c : Cursor) : Bool :=
  c.rest.isEmpty

def column (c : Cursor) : Nat :=
  c.mark.column

/-- Moves past the characters that pass the test. -/
def spanFrom (p : Char → Bool) (mark : Mark) : List Char → List Char × Cursor
  | [] => ([], ⟨mark, []⟩)
  | c :: rest =>
    if p c then
      let (taken, cursor) := spanFrom p (mark.past c rest) rest
      (c :: taken, cursor)
    else ([], ⟨mark, c :: rest⟩)

/-- The characters that pass the test, and the cursor behind them. -/
def span (p : Char → Bool) (c : Cursor) : List Char × Cursor :=
  spanFrom p c.mark c.rest

/-- The cursor behind the characters that pass the test. -/
def skip (p : Char → Bool) (c : Cursor) : Cursor :=
  (c.span p).2

/-- The cursor `n` characters on. -/
def advance : (n : Nat) → Cursor → Cursor
  | 0, c => c
  | n + 1, c =>
    match c.rest with
    | [] => c
    | ch :: rest => advance n ⟨c.mark.past ch rest, rest⟩

/-- The cursor one character on. -/
def step (c : Cursor) : Cursor :=
  c.advance 1

def skipSpaces (c : Cursor) : Cursor :=
  c.skip (· == ' ')

/-- Moves past spaces up to a column. -/
def skipIndent (column : Nat) (c : Cursor) : Cursor :=
  let spaces := (c.rest.takeWhile (· == ' ')).length
  c.advance (min spaces (column - c.column))

/-- A comment up to the end of its line, if there is one. -/
def skipComment (c : Cursor) : Cursor :=
  if c.next = '#' then c.skip (!endsLine ·) else c

/-- Moves past a line end.  Line and paragraph separators count as themselves, every other line
end as a line feed. -/
def lineEnd? (c : Cursor) : Option (Char × Cursor) :=
  let ch := c.next
  if ch = '\r' && c.look 1 = '\n' then some ('\n', c.advance 2)
  else if ch = '\r' || ch = '\n' || ch = '\x85' then some ('\n', c.step)
  else if ch = '\u2028' || ch = '\u2029' then some (ch, c.step)
  else none

/-- Moves past a line end, if there is one. -/
def skipLineEnd (c : Cursor) : Cursor :=
  match c.lineEnd? with
  | some (_, c) => c
  | none => c

/-- The cursor stands before three characters of the kind that separates documents. -/
def atSeparator (c : Cursor) : Bool :=
  let lead := c.rest.take 3
  (lead == ['-', '-', '-'] || lead == ['.', '.', '.']) && endsWord (c.look 3)

end Cursor

/-- The characters that a text of YAML may hold. -/
def isAdmitted (c : Char) : Bool :=
  c == '\t' || c == '\n' || c == '\r' || ' ' ≤ c && c ≤ '~' || c == '\x85' ||
    '\xa0' ≤ c && c.toNat ≤ 0xfffd || 0x10000 ≤ c.toNat

end NoteQuery.Yaml
