/-
Writing YAML.

Plain data is written in blocks, two columns deeper on each level, except that a sequence under
a key stays at the column of the key.  A text is written without quotes if it would be read
back as that text, in single quotes if it has no character that needs an escape, and in double
quotes otherwise.  Lines break at single spaces beyond the eightieth column.
-/
import NoteQuery.Text.Quoted
import NoteQuery.Value.Basic
import NoteQuery.Yaml.Tag

namespace NoteQuery.Yaml

/-! ## What a text holds -/

/-- A line end that breaks the lines of a written scalar. -/
def isLineBreak (c : Char) : Bool :=
  c == '\n' || c == '\x85' || c == '\u2028' || c == '\u2029'

/-- A character that may stand in a text without quotes. -/
def isPlainChar (c : Char) : Bool :=
  c == '\n' || ' ' ≤ c && c ≤ '~' || c == '\x85' ||
    '\xa0' ≤ c && c.toNat ≤ 0xfffd && c != '\ufeff' ||
    0x10000 ≤ c.toNat && c.toNat < 0x10ffff

/-- Two neighbours in a text that pass the tests. -/
def hasPair (p q : Char → Bool) : List Char → Bool
  | a :: b :: cs => p a && q b || hasPair p q (b :: cs)
  | _ => false

/-- An indicator that opens something other than a text in a block. -/
def startsIndicator (cs : List Char) : Bool :=
  let lone := endsWord ((cs.drop 1).headD '\x00')
  [['-', '-', '-'], ['.', '.', '.']].contains (cs.take 3) ||
    match cs with
    | c :: _ => "#,[]\x7b\x7d&*!|>'\"%@\x60".toList.contains c ||
      lone && (c == '?' || c == ':' || c == '-')
    | [] => false

/-- A colon before a blank or the end, or a number sign behind a blank. -/
def hasIndicator (cs : List Char) : Bool :=
  let body := cs.drop 1
  hasPair (· == ':') endsWord body || body.getLast? == some ':' ||
    hasPair endsWord (· == '#') cs

/-- How a text is written. -/
inductive Quoting where
  | plain | single | double
deriving DecidableEq

/-- The text may be written without quotes, apart from what it would be read back as. -/
def fitsPlain (cs : List Char) : Bool :=
  let isSpace := (· == ' ')
  let edge (c : Option Char) : Bool := c.any fun c => isSpace c || isLineBreak c
  cs.all isPlainChar && !cs.any isLineBreak && !edge cs.head? && !edge cs.getLast? &&
    !startsIndicator cs && !hasIndicator cs

/-- The text may be written in single quotes. -/
def fitsSingle (cs : List Char) : Bool :=
  cs.all isPlainChar && !hasPair isLineBreak (· == ' ') cs && !hasPair (· == ' ') isLineBreak cs

/-- The way in which a text with a tag is written, as a key or elsewhere. -/
def quotingOf (isKey : Bool) (tag : String) (cs : List Char) : Quoting :=
  if Tag.ofForm cs = tag && fitsPlain cs && !(isKey && cs.isEmpty) then .plain
  else if fitsSingle cs && !(isKey && cs.any isLineBreak) then .single
  else .double

/-! ## Where writing stands -/

/-- What has been written, last character first, the column, and whether only blanks, or only
blanks and indicators, stand before it on the line. -/
structure Page where
  written : List Char := []
  column : Nat := 0
  afterBlank : Bool := true
  indenting : Bool := true

namespace Page

/-- The column beyond which lines break. -/
def width : Nat := 80

/-- Adds characters to the line. -/
def put (p : Page) (cs : List Char) : Page :=
  { p with written := cs.reverse ++ p.written, column := p.column + cs.length }

/-- Starts a line. -/
def breakLine (p : Page) (lineEnd : Char) : Page :=
  { written := lineEnd :: p.written }

/-- Goes to a column, on a new line unless the place is already in front of it. -/
def indentTo (p : Page) (column : Nat) : Page :=
  let p :=
    if !p.indenting || column < p.column || p.column = column && !p.afterBlank then
      p.breakLine '\n'
    else p
  if p.column < column then
    { p.put (List.replicate (column - p.column) ' ') with afterBlank := true }
  else p

/-- Adds an indicator, behind a blank if asked. -/
def indicator (p : Page) (cs : List Char) (spaced indents : Bool) : Page :=
  { p.put (if p.afterBlank || !spaced then cs else ' ' :: cs) with
    afterBlank := false, indenting := p.indenting && indents }

/-! ## Scalars -/

/-- Cuts a text into runs of spaces, of line ends, and of other characters. -/
def runsOf (cs : List Char) : List (List Char) :=
  let sort (c : Char) : Nat := if c = ' ' then 0 else if isLineBreak c then 1 else 2
  cs.splitBy fun a b => sort a == sort b

/-- Doubles single quotes. -/
def doubled (cs : List Char) : List Char :=
  cs.flatMap fun c => if c = '\'' then ['\'', '\''] else [c]

/-- Writes runs of a text without quotes or in single quotes.  A single space inside breaks the
line if the line is full, and line ends are written once more than they are. -/
def putRuns (column : Nat) (split isPlain : Bool) :
    (first : Bool) → List (List Char) → Page → Page
  | _, [], p => p
  | first, run :: rest, p =>
    let p :=
      if run.head? == some ' ' then
        if run.length = 1 && width < p.column && split && !first && !rest.isEmpty then
          let p := p.indentTo column
          if isPlain then { p with afterBlank := false, indenting := false } else p
        else p.put run
      else if run.any isLineBreak then
        let p := if run.head? == some '\n' then p.breakLine '\n' else p
        (run.foldl breakLine p).indentTo column
      else p.put (if isPlain then run else doubled run)
    putRuns column split isPlain false rest p

/-- The letters of escapes in double quotes. -/
def escapeLetters : List (Char × Char) := [
  ('\x00', '0'), ('\x07', 'a'), ('\x08', 'b'), ('\t', 't'), ('\n', 'n'), ('\x0b', 'v'),
  ('\x0c', 'f'), ('\r', 'r'), ('\x1b', 'e'), ('"', '"'), ('\\', '\\'), ('\x85', 'N'),
  ('\xa0', '_'), ('\u2028', 'L'), ('\u2029', 'P')]

/-- Hexadecimal digits with capitals. -/
def capitalHex (width n : Nat) : List Char :=
  (Text.hex width n).map Char.toUpper

/-- A character that double quotes hold as it is. -/
def isBare (c : Char) : Bool :=
  (' ' ≤ c && c ≤ '~' || '\xa0' ≤ c && c.toNat ≤ 0xfffd) &&
    ! ['"', '\\', '\u2028', '\u2029', '\ufeff'].contains c

/-- A character in double quotes. -/
def escaped (c : Char) : List Char :=
  if isBare c then [c]
  else
    match escapeLetters.lookup c with
    | some letter => ['\\', letter]
    | none =>
      if c.toNat < 0x100 then '\\' :: 'x' :: capitalHex 2 c.toNat
      else if c.toNat < 0x10000 then '\\' :: 'u' :: capitalHex 4 c.toNat
      else '\\' :: 'U' :: capitalHex 8 c.toNat

/-- Writes the rest of a text in double quotes.  `pending` are bare characters not yet written,
last first; `first` tells whether no character came before.  A full line breaks at a space and
beside an escape, but not before the last character. -/
def putEscaped (column : Nat) (split : Bool) :
    (first : Bool) → (pending : List Char) → List Char → Page → Page
  | _, pending, [], p => p.put pending.reverse
  | first, pending, c :: rest, p =>
    let bare := isBare c
    let mayBreak := split && !first && !rest.isEmpty
    let p := if bare then p else (p.put pending.reverse).put (escaped c)
    let isFull :=
      if bare then (c == ' ' || pending.isEmpty) && width < p.column + pending.length
      else width + 1 < p.column
    if mayBreak && isFull then
      let p := if bare then p.put pending.reverse else p
      let p := (p.put ['\\']).indentTo column
      let p := { p with afterBlank := false, indenting := false }
      let next := if bare then c else rest.headD 'x'
      let p := if next = ' ' then p.put ['\\'] else p
      putEscaped column split false (if bare then [c] else []) rest p
    else putEscaped column split false (if bare then c :: pending else []) rest p

/-- Writes a scalar whose further lines start at the column. -/
def scalar (p : Page) (column : Nat) (isKey : Bool) (tag : String) (cs : List Char) : Page :=
  match quotingOf isKey tag cs with
  | .plain =>
    if cs.isEmpty then p
    else
      let p := if p.afterBlank then p else p.put [' ']
      putRuns column (!isKey) true true (runsOf cs)
        { p with afterBlank := false, indenting := false }
  | .single =>
    let p := p.indicator ['\''] true false
    let p := putRuns column (!isKey) false true (runsOf cs) p
    p.indicator ['\''] false false
  | .double =>
    let p := p.indicator ['"'] true false
    let p := putEscaped column (!isKey) true [] cs p
    p.indicator ['"'] false false

/-! ## Values -/

/-- The text of a binary number as YAML reads it: with a point, also before a power of ten. -/
def floatText (x : Binary64) : String :=
  match x with
  | .nan => ".nan"
  | .infinite s => if s then "-.inf" else ".inf"
  | .finite .. =>
    let cs := x.literal.toList
    if cs.contains '.' then x.literal
    else
      let whole := cs.takeWhile (· != 'e')
      String.ofList (whole ++ ".0".toList ++ cs.drop whole.length)

/-- A scalar of plain data, or a moment: its tag and its text. -/
def scalarOf : Value → String × String
  | .null => (Tag.null, "null")
  | .bool b => (Tag.bool, if b then "true" else "false")
  | .number (.int n) => (Tag.int, String.ofList (Number.integerText n))
  | .number (.float x) => (Tag.float, floatText x)
  | .string s => (Tag.str, s)
  | .date d => (Tag.timestamp, d.iso)
  | .timestamp t => (Tag.timestamp, t.isoWith ' ')
  | _ => (Tag.null, "null")

/-- The character of base 64 for six bits. -/
def sixBits (n : Nat) : Char :=
  if n < 26 then Char.ofNat (n + 65)
  else if n < 52 then Char.ofNat (n + 71)
  else if n < 62 then Char.ofNat (n - 4)
  else if n = 62 then '+'
  else '/'

/-- Octets in base 64, filled up to groups of four characters. -/
def base64 : List UInt8 → List Char
  | [] => []
  | [a] => [sixBits (a.toNat / 4), sixBits (a.toNat % 4 * 16), '=', '=']
  | [a, b] =>
    [sixBits (a.toNat / 4), sixBits (a.toNat % 4 * 16 + b.toNat / 16), sixBits (b.toNat % 16 * 4),
      '=']
  | a :: b :: c :: rest =>
    sixBits (a.toNat / 4) :: sixBits (a.toNat % 4 * 16 + b.toNat / 16) ::
      sixBits (b.toNat % 16 * 4 + c.toNat / 64) :: sixBits (c.toNat % 64) :: base64 rest

/-- Pieces of one character and so many more. -/
def cutBehind (more : Nat) : List Char → List (List Char)
  | [] => []
  | c :: cs => (c :: cs.take more) :: cutBehind more (cs.drop more)
termination_by cs => cs.length
decreasing_by
  simp only [List.length_cons, List.length_drop]
  omega

/-- Writes octets, on lines of their own at the column. -/
def octets (p : Page) (column : Nat) (octets : List UInt8) : Page :=
  let p := p.indicator "!!binary".toList true false
  if octets.isEmpty then p.indicator ['\'', '\''] true false
  else
    (cutBehind 75 (base64 octets)).foldl
      (fun p line => ((p.indentTo column).put line).breakLine '\n')
      ((p.indicator ['|'] true false).breakLine '\n')

/-- The text is short and simple enough for a key before a colon. -/
def isSimpleKey (cs : List Char) : Bool :=
  cs.length < 123 && !cs.isEmpty && !cs.any isLineBreak

/-- Where a value stands. -/
inductive Site where
  | root | item | underKey
deriving DecidableEq

mutual

/-- Writes a value of plain data inside a block at the column. -/
def value (p : Page) (column : Nat) (site : Site) : Value → Page
  | .list [] => p.indicator ['[', ']'] true false
  | .mapping _ [] => p.indicator ['\x7b', '\x7d'] true false
  | .list (v :: vs) =>
    let loose := site = .underKey && !p.indenting
    let inner := if site = .root || loose then column else column + 2
    items p inner (v :: vs)
  | .mapping _ (e :: es) => pairs p (if site = .root then column else column + 2) (e :: es)
  | .bytes bs => p.octets (column + 2) bs
  | v =>
    let (tag, text) := scalarOf v
    p.scalar (column + 2) false tag text.toList

/-- Writes the items of a sequence at the column. -/
def items (p : Page) (column : Nat) : List Value → Page
  | [] => p
  | v :: vs =>
    let p := (p.indentTo column).indicator ['-'] true true
    items (value p column .item v) column vs

/-- Writes the pairs of a mapping at the column. -/
def pairs (p : Page) (column : Nat) : List (Value × Value) → Page
  | [] => p
  | (k, v) :: rest =>
    let (tag, text) := scalarOf k
    let cs := text.toList
    let p := p.indentTo column
    let p :=
      if isSimpleKey cs then
        (p.scalar (column + 2) true tag cs).indicator [':'] false false
      else
        let p := (p.indicator ['?'] true true).scalar (column + 2) false tag cs
        (p.indentTo column).indicator [':'] true true
    pairs (value p column .underKey v) column rest

end

end Page

/-- Plain data as a text of YAML. -/
def write (v : Value) : String :=
  String.ofList ((({} : Page).value 0 .root v).indentTo 0).written.reverse

end NoteQuery.Yaml
