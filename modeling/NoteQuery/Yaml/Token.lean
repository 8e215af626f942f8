/-
Tokens of YAML.

Indentation becomes tokens of its own: a block opens where a deeper line starts and closes
where a shallower one does.  That a scalar is a key shows only at the colon behind it; so each
level of brackets remembers where its last possible key began, and the colon puts the token
that opens the key back there.  Such a key ends on its line and within 1024 characters.
-/
import NoteQuery.Text.Utf8
import NoteQuery.Yaml.ScalarText

namespace NoteQuery.Yaml

/-- What a token is and says. -/
inductive TokenKind where
  | streamEnd
  | versionDirective (major minor : Nat)
  | tagDirective (handle lead : String)
  | otherDirective
  | documentStart | documentEnd
  | blockSequenceStart | blockMappingStart | blockEnd
  | flowSequenceStart | flowMappingStart | flowSequenceEnd | flowMappingEnd
  | blockEntry | flowEntry | key | value
  | aliasOf (name : String)
  | anchor (name : String)
  | tag (handle : Option String) (suffix : String)
  | scalar (text : String) (plain : Bool)
deriving DecidableEq

/-- The name by which complaints call a token. -/
def TokenKind.name : TokenKind → String
  | streamEnd => "<stream end>"
  | versionDirective .. | tagDirective .. | otherDirective => "<directive>"
  | documentStart => "<document start>"
  | documentEnd => "<document end>"
  | blockSequenceStart => "<block sequence start>"
  | blockMappingStart => "<block mapping start>"
  | blockEnd => "<block end>"
  | flowSequenceStart => "["
  | flowMappingStart => "\x7b"
  | flowSequenceEnd => "]"
  | flowMappingEnd => "\x7d"
  | blockEntry => "-"
  | flowEntry => ","
  | key => "?"
  | value => ":"
  | aliasOf _ => "<alias>"
  | anchor _ => "<anchor>"
  | tag .. => "<tag>"
  | scalar .. => "<scalar>"

/-- A token and its place. -/
structure Token where
  kind : TokenKind
  first : Mark
  last : Mark
deriving DecidableEq

instance : Inhabited Token := ⟨⟨.streamEnd, {}, {}⟩⟩

/-! ## Names, tags and directives -/

/-- The name of an anchor or an alias behind its indicator. -/
def readName (task : Task) (start : Mark) (c : Cursor) :
    Except Trouble (String × Cursor) := do
  let expected := "alphabetic or numeric character"
  let (name, behind) := c.span isNameChar
  if name.isEmpty then complain task start (.character expected behind.next) behind.mark
  if !(endsWord behind.next || "?:,]\x7d%@\x60".toList.contains behind.next) then
    complain task start (.character expected behind.next) behind.mark
  return (String.ofList name, behind)

/-- Octets written as two hexadecimal digits behind percent signs. -/
def readOctetEscapes (task : Task) (start : Mark) :
    (fuel : Nat) → Cursor → Except Trouble (List UInt8 × Cursor)
  | 0, c => .ok ([], c)
  | fuel + 1, c => do
    if c.next != '%' then return ([], c)
    let digits := c.step
    let expected := "URI escape sequence of 2 hexadecimal numbers"
    for n in [0, 1] do
      if !isHexDigit (digits.look n) then
        complain task start (.character expected (digits.look n)) digits.mark
    let octet := UInt8.ofNat (hexNumber (digits.rest.take 2))
    let (octets, cursor) ← readOctetEscapes task start fuel (digits.advance 2)
    return (octet :: octets, cursor)

/-- A character that tags hold as it is. -/
def isTagChar (c : Char) : Bool :=
  c.isAlphanum || "-;/?:@&=+$,_.!~*'()[]".toList.contains c

/-- The characters of a tag, escapes among them; may be none. -/
def readTagChars (task : Task) (start : Mark) :
    (fuel : Nat) → Cursor → Except Trouble (List Char × Cursor)
  | 0, c => .ok ([], c)
  | fuel + 1, c => do
    let (part, behind) := c.span isTagChar
    if behind.next != '%' then return (part, behind)
    let (octets, next) ← readOctetEscapes task start (behind.rest.length + 1) behind
    match Text.decode octets with
    | .error place => complain task start (.undecodableEscapes place) behind.mark
    | .ok text =>
      let (rest, cursor) ← readTagChars task start fuel next
      return (part ++ text.toList ++ rest, cursor)

/-- The text of a tag. -/
def readTagText (task part : Task) (start : Mark) (c : Cursor) :
    Except Trouble (String × Cursor) := do
  let (text, behind) ← readTagChars task start (c.rest.length + 1) c
  if text.isEmpty then complain part start (.character "URI" behind.next) behind.mark
  return (String.ofList text, behind)

/-- A handle: one exclamation mark, or a name between two. -/
def readHandle (task : Task) (start : Mark) (c : Cursor) : Except Trouble (String × Cursor) := do
  if c.next != '!' then complain task start (.character "'!'" c.next) c.mark
  if c.look 1 = ' ' then return ("!", c.step)
  let (name, behind) := c.step.span isNameChar
  if behind.next != '!' then complain task start (.character "'!'" behind.next) behind.mark
  return (String.ofList ('!' :: name ++ ['!']), behind.step)

/-- A tag: between angle brackets, or a handle and a suffix, or a lone exclamation mark. -/
def readTag (c : Cursor) : Except Trouble (Token × Cursor) := do
  let start := c.mark
  let second := c.look 1
  let (kind, behind) ←
    if second = '<' then do
      let (text, behind) ← readTagText .tag .tagPart start (c.advance 2)
      if behind.next != '>' then
        complain .tagPart start (.character "'>'" behind.next) behind.mark
      pure (TokenKind.tag none text, behind.step)
    else if endsWord second then pure (TokenKind.tag none "!", c.step)
    else do
      let rest := c.rest.drop 1
      let hasHandle := (rest.takeWhile (!endsPart ·)).contains '!'
      let (handle, behind) ←
        if hasHandle then readHandle .tag start c else pure ("!", c.step)
      let (suffix, behind) ← readTagText .tag .tagPart start behind
      pure (TokenKind.tag (some handle) suffix, behind)
  if !endsPart behind.next then
    complain .tag start (.character "' '" behind.next) behind.mark
  return (⟨kind, start, behind.mark⟩, behind)

/-- A number of a version. -/
def readVersionPart (start : Mark) (c : Cursor) : Except Trouble (Nat × Cursor) := do
  let (digits, behind) := c.span Char.isDigit
  if digits.isEmpty then complain .directive start (.character "a digit" c.next) c.mark
  if 4300 < digits.length then throw (.fault (.tooManyDigits digits.length))
  return (digits.foldl (fun n d => 10 * n + (d.toNat - 48)) 0, behind)

/-- The version that a directive declares. -/
def readVersion (start : Mark) (c : Cursor) : Except Trouble (TokenKind × Cursor) := do
  let (major, c) ← readVersionPart start c.skipSpaces
  if c.next != '.' then complain .directive start (.character "a digit or '.'" c.next) c.mark
  let (minor, c) ← readVersionPart start c.step
  if !endsPart c.next then
    complain .directive start (.character "a digit or ' '" c.next) c.mark
  return (.versionDirective major minor, c)

/-- The handle that a directive declares and what it stands for. -/
def readHandleDeclaration (start : Mark) (c : Cursor) :
    Except Trouble (TokenKind × Cursor) := do
  let (handle, c) ← readHandle .directive start c.skipSpaces
  if c.next != ' ' then complain .directive start (.character "' '" c.next) c.mark
  let (lead, c) ← readTagText .directive .directivePart start c.skipSpaces
  if !endsPart c.next then complain .directive start (.character "' '" c.next) c.mark
  return (.tagDirective handle lead, c)

/-- A directive with the rest of its line. -/
def readDirective (c : Cursor) : Except Trouble (Token × Cursor) := do
  let start := c.mark
  let expected := "alphabetic or numeric character"
  let (name, behind) := c.step.span isNameChar
  if name.isEmpty then complain .directive start (.character expected behind.next) behind.mark
  if !endsPart behind.next then
    complain .directive start (.character expected behind.next) behind.mark
  let name := String.ofList name
  if name = "YAML" then
    let (kind, behind) ← readVersion start behind
    return (⟨kind, start, behind.mark⟩, ← skipIgnoredLine .directive start behind)
  else if name = "TAG" then
    let (kind, behind) ← readHandleDeclaration start behind
    return (⟨kind, start, behind.mark⟩, ← skipIgnoredLine .directive start behind)
  else
    let rest := behind.skip (!endsLine ·)
    return (⟨.otherDirective, start, behind.mark⟩, ← skipIgnoredLine .directive start rest)

/-! ## The state of reading -/

/-- A place where a key may have begun: the number of its token, and whether only a key can be
there. -/
structure PossibleKey where
  number : Nat
  required : Bool
  mark : Mark

/-- The tokens read so far, last first, and what decides about the next one: the columns of
the open blocks, the possible key of each level of brackets, innermost first, and whether a
key may begin at the cursor. -/
structure Reading where
  cursor : Cursor
  tokens : List Token := []
  count : Nat := 0
  indent : Int := -1
  outer : List Int := []
  brackets : List (Option PossibleKey) := []
  possible : Option PossibleKey := none
  keyAllowed : Bool := true

namespace Reading

/-- The cursor is between brackets. -/
def inFlow (r : Reading) : Bool :=
  !r.brackets.isEmpty

/-- Adds a token. -/
def add (r : Reading) (t : Token) : Reading :=
  { r with tokens := t :: r.tokens, count := r.count + 1 }

/-- Adds a token that takes no characters. -/
def addEmpty (r : Reading) (kind : TokenKind) : Reading :=
  r.add ⟨kind, r.cursor.mark, r.cursor.mark⟩

/-- Adds a token of the next characters. -/
def takeMany (r : Reading) (kind : TokenKind) (length : Nat) : Reading :=
  let behind := r.cursor.advance length
  { r.add ⟨kind, r.cursor.mark, behind.mark⟩ with cursor := behind }

/-- Adds a token of the next character. -/
def take (r : Reading) (kind : TokenKind) : Reading :=
  r.takeMany kind 1

/-- Puts a token before the token of the given number. -/
def insert (r : Reading) (number : Nat) (t : Token) : Reading :=
  let later := r.count - number
  { r with tokens := r.tokens.take later ++ t :: r.tokens.drop later, count := r.count + 1 }

/-- The possible keys of all levels. -/
def allPossible (r : Reading) : List PossibleKey :=
  (r.possible :: r.brackets).filterMap id

/-- The possible key would be too long by now. -/
def isStale (r : Reading) (k : PossibleKey) : Bool :=
  k.mark.line != r.cursor.mark.line || k.mark.index + 1024 < r.cursor.mark.index

/-- Complains of a key that has to be one and is not. -/
def demand (r : Reading) (k : PossibleKey) : Except Trouble Unit :=
  if k.required then complain .simpleKey k.mark .missingColon r.cursor.mark else .ok ()

/-- Gives up the possible keys that would be too long by now. -/
def dropStale (r : Reading) : Except Trouble Reading := do
  for k in r.allPossible.reverse do
    if r.isStale k then r.demand k
  let fresh := Option.filter fun k => !r.isStale k
  return { r with possible := fresh r.possible, brackets := r.brackets.map fresh }

/-- Gives up the possible key of this level. -/
def dropPossible (r : Reading) : Except Trouble Reading := do
  if let some k := r.possible then r.demand k
  return { r with possible := none }

/-- Remembers that a key may begin at the cursor. -/
def savePossible (r : Reading) : Except Trouble Reading := do
  if !r.keyAllowed then return r
  let required := !r.inFlow && r.indent == r.cursor.column
  let r ← r.dropPossible
  return { r with possible := some ⟨r.count, required, r.cursor.mark⟩ }

/-- Closes the blocks deeper than a column. -/
def closeBlocks (column : Int) : List Int → Reading → Reading
  | [], r => r
  | i :: outer, r =>
    if column < r.indent then
      closeBlocks column outer { r.addEmpty .blockEnd with indent := i, outer := outer }
    else r

/-- Closes the blocks deeper than a column, outside of brackets. -/
def unwind (r : Reading) (column : Int) : Reading :=
  if r.inFlow then r else closeBlocks column r.outer r

/-- A block at the column, and whether it is a new one. -/
def openBlock (r : Reading) (column : Nat) : Bool × Reading :=
  if r.indent < column then
    (true, { r with indent := column, outer := r.indent :: r.outer })
  else (false, r)

/-! ## One token -/

/-- A token that ends all blocks. -/
def readMarker (r : Reading) (kind : TokenKind) : Except Trouble Reading := do
  let r ← (r.unwind (-1)).dropPossible
  return { r with keyAllowed := false }.takeMany kind 3

/-- The start of a bracketed collection. -/
def openBracket (r : Reading) (kind : TokenKind) : Except Trouble Reading := do
  let r ← r.savePossible
  return { r with brackets := r.possible :: r.brackets, possible := none,
                  keyAllowed := true }.take kind

/-- The end of a bracketed collection. -/
def closeBracket (r : Reading) (kind : TokenKind) : Except Trouble Reading := do
  let r ← r.dropPossible
  return { r with possible := r.brackets.headD none, brackets := r.brackets.tail,
                  keyAllowed := false }.take kind

/-- A block that a new entry may open; entries start where keys may. -/
def enterBlock (r : Reading) (kind : TokenKind) (problem : Problem) :
    Except Trouble Reading := do
  if r.inFlow then return r
  if !r.keyAllowed then complainAt r.cursor.mark problem
  let (isNew, r) := r.openBlock r.cursor.column
  return if isNew then r.addEmpty kind else r

/-- An entry of a sequence. -/
def readEntry (r : Reading) : Except Trouble Reading := do
  let r ← r.enterBlock .blockSequenceStart .entryNotAllowed
  let r ← { r with keyAllowed := true }.dropPossible
  return r.take .blockEntry

/-- A key that has an indicator of its own. -/
def readKey (r : Reading) : Except Trouble Reading := do
  let r ← r.enterBlock .blockMappingStart .keyNotAllowed
  let r ← { r with keyAllowed := !r.inFlow }.dropPossible
  return r.take .key

/-- The colon behind a key.  If a key was possible it is one now. -/
def readValue (r : Reading) : Except Trouble Reading := do
  match r.possible with
  | some k =>
    let r := { r with possible := none, keyAllowed := false }
    let r := r.insert k.number ⟨.key, k.mark, k.mark⟩
    let (isNew, r) := if r.inFlow then (false, r) else r.openBlock k.mark.column
    let r := if isNew then r.insert k.number ⟨.blockMappingStart, k.mark, k.mark⟩ else r
    return r.take .value
  | none =>
    let r ← r.enterBlock .blockMappingStart .valueNotAllowed
    return { r with keyAllowed := !r.inFlow }.take .value

/-- A token that may be a key or begin one. -/
def readPart (r : Reading) (part : Cursor → Except Trouble (Token × Cursor)) :
    Except Trouble Reading := do
  let r ← r.savePossible
  let (t, behind) ← part r.cursor
  return { r with keyAllowed := false, cursor := behind }.add t

/-- A name behind an indicator. -/
def namePart (task : Task) (kind : String → TokenKind) (c : Cursor) :
    Except Trouble (Token × Cursor) := do
  let (name, behind) ← readName task c.mark c.step
  return (⟨kind name, c.mark, behind.mark⟩, behind)

/-- A quoted scalar. -/
def quotedPart (double : Bool) (c : Cursor) : Except Trouble (Token × Cursor) := do
  let (text, behind) ← readQuoted double c.mark (c.rest.length + 1) c.step
  return (⟨.scalar (String.ofList text) false, c.mark, behind.mark⟩, behind)

/-- A plain scalar; a key may begin behind it if a line ended there. -/
def readPlainPart (r : Reading) : Except Trouble Reading := do
  let r ← r.savePossible
  let c := r.cursor
  let (scalar, brokeLine) :=
    readPlain r.inFlow (r.indent + 1) (c.rest.length + 1) ⟨[], false, c⟩ c.mark
  let t : Token := ⟨.scalar (String.ofList scalar.text) true, c.mark, scalar.last⟩
  return { r with keyAllowed := brokeLine, cursor := scalar.cursor }.add t

/-- A block scalar. -/
def readBlockPart (r : Reading) (folded : Bool) : Except Trouble Reading := do
  let r ← { r with keyAllowed := true }.dropPossible
  let c := r.cursor
  let scalar ← readBlockScalar folded r.indent c
  let t : Token := ⟨.scalar (String.ofList scalar.text) false, c.mark, scalar.last⟩
  return { r with cursor := scalar.cursor }.add t

/-- A plain scalar may start with the next character. -/
def plainStarts (r : Reading) : Bool :=
  let ch := r.cursor.next
  !(endsWord ch || "-?:,[]\x7b\x7d#&*!|>'\"%@\x60".toList.contains ch) ||
    !endsWord (r.cursor.look 1) && (ch == '-' || !r.inFlow && (ch == '?' || ch == ':'))

/-- Moves past blanks and comments.  Outside of brackets a key may begin on a new line. -/
def skipBlanks : (fuel : Nat) → Reading → Reading
  | 0, r => r
  | fuel + 1, r =>
    let c := r.cursor.skipSpaces.skipComment
    match c.lineEnd? with
    | some (_, behind) =>
      skipBlanks fuel { r with cursor := behind, keyAllowed := r.keyAllowed || !r.inFlow }
    | none => { r with cursor := c }

/-- Reads the token that starts at the cursor, and true for the end of the text. -/
def readToken (r : Reading) : Except Trouble (Bool × Reading) := do
  let c := r.cursor
  let ch := c.next
  let lone := endsWord (c.look 1)
  let more (r : Except Trouble Reading) : Except Trouble (Bool × Reading) := r.map (false, ·)
  if c.atEnd then
    let r ← (r.unwind (-1)).dropPossible
    return (true, r.addEmpty .streamEnd)
  else if ch = '%' && c.column = 0 then
    let r ← (r.unwind (-1)).dropPossible
    let (t, behind) ← readDirective r.cursor
    return (false, { r with keyAllowed := false, cursor := behind }.add t)
  else if c.column = 0 && c.atSeparator then
    more (r.readMarker (if ch = '-' then .documentStart else .documentEnd))
  else if ch = '[' then more (r.openBracket .flowSequenceStart)
  else if ch = '\x7b' then more (r.openBracket .flowMappingStart)
  else if ch = ']' then more (r.closeBracket .flowSequenceEnd)
  else if ch = '\x7d' then more (r.closeBracket .flowMappingEnd)
  else if ch = ',' then
    let r ← { r with keyAllowed := true }.dropPossible
    return (false, r.take .flowEntry)
  else if ch = '-' && lone then more r.readEntry
  else if ch = '?' && (r.inFlow || lone) then more r.readKey
  else if ch = ':' && (r.inFlow || lone) then more r.readValue
  else if ch = '*' then more (r.readPart (namePart .aliasName .aliasOf))
  else if ch = '&' then more (r.readPart (namePart .anchorName .anchor))
  else if ch = '!' then more (r.readPart readTag)
  else if ch = '|' && !r.inFlow then more (r.readBlockPart false)
  else if ch = '>' && !r.inFlow then more (r.readBlockPart true)
  else if ch = '\'' then more (r.readPart (quotedPart false))
  else if ch = '"' then more (r.readPart (quotedPart true))
  else if r.plainStarts then more r.readPlainPart
  else
    .error (.complaint ⟨some .token, none, .cannotStart ch, c.mark⟩)

/-- Reads the next token with what stands before it, and true for the end of the text. -/
def readNext (r : Reading) : Except Trouble (Bool × Reading) := do
  let r := skipBlanks (r.cursor.rest.length + 1) r
  let r ← r.dropStale
  let (done, r) ← (r.unwind r.cursor.column).readToken
  if done then return (true, r)
  return (false, ← r.dropStale)

/-- The number of tokens that are settled: no key can still open before them. -/
def settled (r : Reading) : Nat :=
  r.allPossible.foldl (fun n k => min n k.number) r.count

/-- Reads tokens to the end of the text, or to trouble: then only the settled tokens count. -/
def readAll : (fuel : Nat) → Reading → List Token × Option Trouble
  | 0, r => (r.tokens.reverse, none)
  | fuel + 1, r =>
    match r.readNext with
    | .ok (true, r) => (r.tokens.reverse, none)
    | .ok (false, r) => readAll fuel r
    | .error e => (r.tokens.reverse.take r.settled, some e)

end Reading

/-- The tokens of a text, and what stopped their reading before its end. -/
def tokens (source : List Char) : List Token × Option Trouble :=
  let rest := if source.head? = some '\ufeff' then source.drop 1 else source
  let index := source.length - rest.length
  Reading.readAll (source.length + 1) { cursor := ⟨{ index }, rest⟩ }

end NoteQuery.Yaml
