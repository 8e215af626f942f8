/-
Texts of scalars.

A scalar is plain, quoted, or a block of indented lines.  In plain and quoted scalars a single
line end counts as a space and further ones as themselves; block scalars keep line ends, or
fold those between lines that do not begin with a blank.
-/
import NoteQuery.Yaml.Complaint

namespace NoteQuery.Yaml

/-- What a scalar says, the place behind it, and the cursor from which reading goes on. -/
structure ScalarText where
  text : List Char
  last : Mark
  cursor : Cursor

/-- A line end and the further line ends behind it: a single one is a space. -/
def foldLineEnds (first : Char) (more : List Char) : List Char :=
  if first != '\n' then first :: more
  else if more.isEmpty then [' ']
  else more

/-! ## Plain scalars -/

/-- The characters of a plain scalar up to a blank or to an indicator. -/
def plainChunk (inFlow : Bool) : List Char → List Char
  | [] => []
  | c :: rest =>
    let next := rest.headD '\x00'
    let stops := endsWord c ||
      c == ':' && (endsWord next || inFlow && [',', '[', ']', '\x7b', '\x7d'].contains next) ||
      inFlow && [',', '?', '[', ']', '\x7b', '\x7d'].contains c
    if stops then [] else c :: plainChunk inFlow rest

/-- What lies between two parts of a plain scalar, and whether a line ended there. -/
structure PlainGap where
  text : List Char
  brokeLine : Bool
  cursor : Cursor

/-- Further line ends and the spaces before them, from the start of a line on; `none` before a
separator of documents. -/
def gapLineEnds : (fuel : Nat) → Cursor → Option (List Char) × Cursor
  | 0, c => (some [], c)
  | fuel + 1, c =>
    if c.atSeparator then (none, c)
    else
      let spaced := c.skipSpaces
      match spaced.lineEnd? with
      | some (ch, behind) =>
        let (more, cursor) := gapLineEnds fuel behind
        (more.map (ch :: ·), cursor)
      | none => (some [], spaced)

/-- Reads over spaces and line ends in a plain scalar. -/
def readPlainGap (c : Cursor) : PlainGap :=
  let (spaces, behind) := c.span (· == ' ')
  match behind.lineEnd? with
  | none => ⟨spaces, false, behind⟩
  | some (first, behind) =>
    match gapLineEnds (behind.rest.length + 1) behind with
    | (some more, cursor) => ⟨foldLineEnds first more, true, cursor⟩
    | (none, cursor) => ⟨[], true, cursor⟩

/-- Reads a plain scalar whose continuation lines are indented by at least `indent`; also
tells whether a line ended behind its last part. -/
def readPlain (inFlow : Bool) (indent : Int) :
    (fuel : Nat) → (gap : PlainGap) → (last : Mark) → ScalarText × Bool
  | 0, gap, last => (⟨[], last, gap.cursor⟩, gap.brokeLine)
  | fuel + 1, gap, last =>
    let chunk := if gap.cursor.next = '#' then [] else plainChunk inFlow gap.cursor.rest
    if chunk.isEmpty then (⟨[], last, gap.cursor⟩, gap.brokeLine)
    else
      let behind := gap.cursor.advance chunk.length
      let next := readPlainGap behind
      if next.text.isEmpty || next.cursor.next = '#' ||
          !inFlow && next.cursor.column < indent then
        (⟨gap.text ++ chunk, behind.mark, next.cursor⟩, next.brokeLine)
      else
        let (rest, brokeLine) := readPlain inFlow indent fuel next behind.mark
        (⟨gap.text ++ chunk ++ rest.text, rest.last, rest.cursor⟩, brokeLine)

/-! ## Quoted scalars -/

/-- Escapes of one character. -/
def escapes : List (Char × Char) := [
  ('0', '\x00'), ('a', '\x07'), ('b', '\x08'), ('t', '\t'), ('\t', '\t'), ('n', '\n'),
  ('v', '\x0b'), ('f', '\x0c'), ('r', '\r'), ('e', '\x1b'), (' ', ' '), ('"', '"'), ('\\', '\\'),
  ('/', '/'), ('N', '\x85'), ('_', '\xa0'), ('L', '\u2028'), ('P', '\u2029')]

/-- Escapes by code point, with the number of hexadecimal digits. -/
def codeEscapes : List (Char × Nat) := [('x', 2), ('u', 4), ('U', 8)]

/-- The character of a code point in an escape. -/
def escapedChar (code : Nat) : Except Trouble Char :=
  if code ≤ 0x10ffff then .ok (if code.isValidChar then Char.ofNat code else '\ufffd')
  else if code < 0x80000000 then .error (.fault .noSuchCharacter)
  else .error (.fault .codePointTooLarge)

/-- Line ends and blanks in a quoted scalar behind a line end. -/
def quotedLineEnds (start : Mark) : (fuel : Nat) → Cursor → Except Trouble (List Char × Cursor)
  | 0, c => .ok ([], c)
  | fuel + 1, c => do
    if c.atSeparator then complain .quoted start .separatorInQuote c.mark
    let spaced := c.skip fun ch => ch == ' ' || ch == '\t'
    match spaced.lineEnd? with
    | some (ch, behind) =>
      let (more, cursor) ← quotedLineEnds start fuel behind
      return (ch :: more, cursor)
    | none => return ([], spaced)

/-- An escape, read from behind its backslash. -/
def readEscape (start : Mark) (c : Cursor) : Except Trouble (List Char × Cursor) := do
  let ch := c.next
  match escapes.lookup ch, codeEscapes.lookup ch with
  | some meant, _ => return ([meant], c.step)
  | none, some width =>
    let digits := c.step.rest.take width
    match digits.find? (!isHexDigit ·) with
    | some other =>
      complain .doubleQuoted start
        (.character ("escape sequence of " ++ toString width ++ " hexadecimal numbers") other)
        c.step.mark
    | none =>
      if digits.length < width then
        complain .doubleQuoted start
          (.character ("escape sequence of " ++ toString width ++ " hexadecimal numbers") '\x00')
          c.step.mark
      return ([← escapedChar (hexNumber digits)], c.step.advance width)
  | none, none =>
    match c.lineEnd? with
    | some (_, behind) => quotedLineEnds start (behind.rest.length + 1) behind
    | none => complain .doubleQuoted start (.unknownEscape ch) c.mark

/-- Blanks in a quoted scalar, or line ends with the blanks around them. -/
def readQuotedGap (start : Mark) (c : Cursor) : Except Trouble (List Char × Cursor) := do
  let (blanks, behind) := c.span fun ch => ch == ' ' || ch == '\t'
  if behind.atEnd then complain .quoted start .unfinishedQuote behind.mark
  match behind.lineEnd? with
  | some (first, behind) =>
    let (more, cursor) ← quotedLineEnds start (behind.rest.length + 1) behind
    return (foldLineEnds first more, cursor)
  | none => return (blanks, behind)

/-- A quote or a backslash. -/
def isQuotedMark (c : Char) : Bool :=
  c == '\'' || c == '"' || c == '\\'

/-- The rest of a quoted scalar up to its closing quote. -/
def readQuoted (double : Bool) (start : Mark) :
    (fuel : Nat) → Cursor → Except Trouble (List Char × Cursor)
  | 0, c => complain .quoted start .unfinishedQuote c.mark
  | fuel + 1, c => do
    let ch := c.next
    if ch = '\'' && !double && c.look 1 != '\'' || ch = '"' && double then return ([], c.step)
    let (part, behind) ←
      if ch = '\'' && !double then pure (['\''], c.advance 2)
      else if ch = '\\' && double then readEscape start c.step
      else if isQuotedMark ch then pure ([ch], c.step)
      else if endsWord ch then readQuotedGap start c
      else pure (c.span fun ch => !(isQuotedMark ch || endsWord ch))
    let (rest, cursor) ← readQuoted double start fuel behind
    return (part ++ rest, cursor)

/-! ## Block scalars -/

/-- What becomes of the line ends behind the last line of a block scalar. -/
inductive Chomping where
  | strip | clip | keep
deriving DecidableEq

/-- The header of a block scalar. -/
structure BlockHeader where
  chomping : Chomping := .clip
  increment : Option Nat := none

def chomping? (c : Char) : Option Chomping :=
  if c = '+' then some .keep else if c = '-' then some .strip else none

/-- An indentation indicator. -/
def readIncrement (start : Mark) (c : Cursor) : Except Trouble (Option Nat × Cursor) :=
  let ch := c.next
  if ch = '0' then complain .blockScalar start .zeroIndentation c.mark
  else if ch.isDigit then .ok (some (ch.toNat - 48), c.step)
  else .ok (none, c)

/-- The indicators of a block scalar, in either order. -/
def readBlockHeader (start : Mark) (c : Cursor) : Except Trouble (BlockHeader × Cursor) := do
  let (header, c) ← match chomping? c.next with
    | some chomping => do
      let (increment, c) ← readIncrement start c.step
      pure ({ chomping, increment }, c)
    | none => do
      let (increment, c) ← readIncrement start c
      match increment, chomping? c.next with
      | some n, some chomping => pure ({ chomping, increment := some n }, c.step)
      | increment, _ => pure ({ increment }, c)
  if !endsPart c.next then
    complain .blockScalar start (.character "chomping or indentation indicators" c.next) c.mark
  return (header, c)

/-- Spaces, a comment and a line end. -/
def skipIgnoredLine (task : Task) (start : Mark) (c : Cursor) : Except Trouble Cursor :=
  let c := c.skipSpaces.skipComment
  if endsLine c.next then .ok c.skipLineEnd
  else complain task start (.character "a comment or a line break" c.next) c.mark

/-- Line ends before a block of lines. -/
structure BlockGap where
  lineEnds : List Char
  last : Mark
  cursor : Cursor

/-- Empty lines, and the spaces up to `indent` before the line that follows them. -/
def readBlockGap (indent : Nat) : (fuel : Nat) → (last : Mark) → Cursor → BlockGap
  | 0, last, c => ⟨[], last, c⟩
  | fuel + 1, last, c =>
    let indented := c.skipIndent indent
    match indented.lineEnd? with
    | some (ch, behind) =>
      let gap := readBlockGap indent fuel behind.mark behind
      { gap with lineEnds := ch :: gap.lineEnds }
    | none => ⟨[], last, indented⟩

/-- Empty lines with spaces of any number; also gives the largest column that the spaces
reach. -/
def readLeadingLines : (fuel : Nat) → (deepest : Nat) → (last : Mark) → Cursor → BlockGap × Nat
  | 0, deepest, last, c => (⟨[], last, c⟩, deepest)
  | fuel + 1, deepest, last, c =>
    let spaced := c.skipSpaces
    let deepest := if spaced.mark.index = c.mark.index then deepest else max deepest spaced.column
    match spaced.lineEnd? with
    | some (ch, behind) =>
      let (gap, deepest) := readLeadingLines fuel deepest behind.mark behind
      ({ gap with lineEnds := ch :: gap.lineEnds }, deepest)
    | none => (⟨[], last, spaced⟩, deepest)

/-- The lines of a block scalar from the cursor on, the line ends before them being `gap`. -/
def readBlockLines (folded : Bool) (chomping : Chomping) (indent : Nat) :
    (fuel : Nat) → (gap : BlockGap) → (lastEnd : List Char) → ScalarText
  | 0, gap, _ => ⟨[], gap.last, gap.cursor⟩
  | fuel + 1, gap, lastEnd =>
    let c := gap.cursor
    if c.column != indent || c.atEnd then
      let tail := match chomping with
        | .strip => []
        | .clip => lastEnd
        | .keep => lastEnd ++ gap.lineEnds
      ⟨tail, gap.last, c⟩
    else
      let (line, behind) := c.span (!endsLine ·)
      let (lineEnd, behind) := match behind.lineEnd? with
        | some (ch, behind) => ([ch], behind)
        | none => ([], behind)
      let next := readBlockGap indent (behind.rest.length + 1) behind.mark behind
      let goesOn := next.cursor.column = indent && !next.cursor.atEnd
      let startsBlank (ch : Char) : Bool := ch == ' ' || ch == '\t'
      let joint :=
        if !goesOn then []
        else if folded && lineEnd == ['\n'] && !startsBlank c.next &&
            !startsBlank next.cursor.next then
          if next.lineEnds.isEmpty then [' '] else []
        else lineEnd
      let rest := readBlockLines folded chomping indent fuel next lineEnd
      ⟨gap.lineEnds ++ line ++ joint ++ rest.text, rest.last, rest.cursor⟩

/-- Reads a block scalar from its indicator on, inside a block of the given indentation. -/
def readBlockScalar (folded : Bool) (outer : Int) (c : Cursor) : Except Trouble ScalarText := do
  let start := c.mark
  let (header, c) ← readBlockHeader start c.step
  let c ← skipIgnoredLine .blockScalar start c
  let least := (max 1 (outer + 1)).toNat
  let fuel := c.rest.length + 1
  let (indent, gap) := match header.increment with
    | some n => (least + n - 1, readBlockGap (least + n - 1) fuel c.mark c)
    | none =>
      let (gap, deepest) := readLeadingLines fuel 0 c.mark c
      (max least deepest, gap)
  return readBlockLines folded header.chomping indent fuel gap []

end NoteQuery.Yaml
