/-
Reading patterns.

The text of a pattern is first cut into single and escaped characters.  The reader then
follows the grammar: alternatives of sequences of items, an item being a character, a set, a
place or a group, possibly repeated.  It keeps the number and widths of the groups, since a
reference must lead to a closed group and what is looked for behind a place must have one
width.
-/
import NoteQuery.Fault
import NoteQuery.Number.Reading
import NoteQuery.Pattern.Syntax

namespace NoteQuery.Pattern

/-- A character of a pattern text, on its own or behind a backslash; the last backslash of a
text may have nothing behind it. -/
inductive Token where
  | plain (c : Char) (pos : Nat)
  | escaped (c : Char) (pos : Nat)
  | dangling (pos : Nat)

namespace Token

def pos : Token → Nat
  | plain _ p | escaped _ p | dangling p => p

/-- The characters of the token. -/
def chars : Token → List Char
  | plain c _ => [c]
  | escaped c _ => ['\\', c]
  | dangling _ => ['\\']

end Token

/-- Cuts a pattern text, whose first character has the position given. -/
def tokens : (pos : Nat) → List Char → List Token
  | _, [] => []
  | p, '\\' :: c :: cs => .escaped c p :: tokens (p + 2) cs
  | p, '\\' :: [] => [.dangling p]
  | p, c :: cs => .plain c p :: tokens (p + 1) cs

/-- Why a pattern does not read. -/
inductive Trouble where
  | wrong (reason : String) (pos : Nat)
  | countTooLarge
  | countTooLong (digits : Nat)
  | scriptsClash

/-- What the reader keeps: the characters ahead and the length of the whole, the flags that hold
for the whole and the letters that have set some, the widths of the groups, open ones having none
yet, their names, the first group that may not be referred to while looking behind, the group
numbers asked for by conditions, and whether something without one width was looked for behind a
place. -/
structure Reader where
  rest : List Token
  size : Nat
  flags : Flags
  letters : List Char := []
  widths : List (Option Width) := []
  names : List (String × Nat) := []
  behindFrom : Option Nat := none
  asked : List (Nat × Nat) := []
  unevenBehind : Bool := false

abbrev Read := StateT Reader (Except Trouble)

namespace Read

/-- The position of the next character. -/
def position : Read Nat := do
  let r ← get
  return match r.rest with
    | [] => r.size
    | t :: _ => t.pos

def fail {α : Type} (reason : String) (pos : Nat) : Read α :=
  throw (.wrong reason pos)

/-- The next character, left in place. -/
def peek : Read (Option Token) := do
  match (← get).rest with
  | [] => return none
  | .dangling p :: _ => fail "bad escape (end of pattern)" p
  | t :: _ => return some t

/-- The next character, taken. -/
def take : Read (Option Token) := do
  let t ← peek
  modify fun r => { r with rest := r.rest.drop 1 }
  return t

/-- Takes the next character if it is this one, unescaped. -/
def accept (c : Char) : Read Bool := do
  match ← peek with
  | some (.plain d _) => if c = d then discard take; return true else return false
  | _ => return false

/-- Takes up to `n` unescaped characters that pass the test. -/
def takeWhile (p : Char → Bool) : (n : Nat) → Read (List Char)
  | 0 => return []
  | n + 1 => do
    match ← peek with
    | some (.plain c _) =>
      if p c then
        discard take
        return c :: (← takeWhile p n)
      else return []
    | _ => return []

/-- The characters up to an unescaped terminator, and what follows it. -/
def splitAt? (terminator : Char) : List Token → Option (List Char × List Token)
  | [] => none
  | .plain c p :: ts =>
    if c = terminator then some ([], ts)
    else (splitAt? terminator ts).map fun (cs, r) => ((Token.plain c p).chars ++ cs, r)
  | t :: ts => (splitAt? terminator ts).map fun (cs, r) => (t.chars ++ cs, r)

/-- A name up to its terminator, which is taken too. -/
def takeName (terminator : Char) (what : String) : Read String := do
  let r ← get
  match splitAt? terminator r.rest with
  | none =>
    if r.rest.isEmpty then fail ("missing " ++ what) r.size
    else fail ("missing " ++ terminator.toString ++ ", unterminated name") (← position)
  | some (cs, rest) =>
    if cs.isEmpty then fail ("missing " ++ what) (← position)
    set { r with rest }
    return String.ofList cs

end Read

open Read

/-- One more than the number of groups opened so far. -/
def Reader.nextGroup (r : Reader) : Nat :=
  r.widths.length + 1

/-- The width of a closed group. -/
def Reader.width? (r : Reader) (index : Nat) : Option Width :=
  if index = 0 then none else (r.widths[index - 1]?).bind id

/-- The widths that the tree of a finished item may need. -/
def Reader.widthOf (r : Reader) (node : Node) : Width :=
  node.width fun i => (r.width? i).getD ⟨0, none⟩

/-- The largest repetition count, which stands for no bound. -/
def countLimit : Nat := 4294967295

def isOctal (c : Char) : Bool :=
  '0' ≤ c && c ≤ '7'

def isHex (c : Char) : Bool :=
  c.isDigit || ('a' ≤ c && c ≤ 'f') || ('A' ≤ c && c ≤ 'F')

/-- The value of a digit in a base of at most sixteen. -/
def baseDigit (c : Char) : Nat :=
  if c.isDigit then c.toNat - 48
  else if 'a' ≤ c && c ≤ 'f' then c.toNat - 87
  else c.toNat - 55

def baseValue (base : Nat) (cs : List Char) : Nat :=
  cs.foldl (fun n c => base * n + baseDigit c) 0

/-! ## Escapes -/

/-- What an escape stands for. -/
inductive Escape where
  | code (c : Nat)
  | category (k : Category) (negated : Bool)
  | place (anchor : Anchor)
  | backref (index : Nat)

/-- Control characters with a letter of their own. -/
def controlEscape? (c : Char) : Option Nat :=
  [('a', 7), ('b', 8), ('f', 12), ('n', 10), ('r', 13), ('t', 9), ('v', 11), ('\\', 92)].lookup c

/-- Categories of characters. -/
def categoryEscape? (c : Char) : Option Escape :=
  match c with
  | 'd' => some (.category .digit false)
  | 'D' => some (.category .digit true)
  | 's' => some (.category .space false)
  | 'S' => some (.category .space true)
  | 'w' => some (.category .word false)
  | 'W' => some (.category .word true)
  | _ => none

/-- Places with a letter of their own. -/
def placeEscape? (c : Char) : Option Escape :=
  match c with
  | 'A' => some (.place .textStart)
  | 'b' => some (.place .wordEdge)
  | 'B' => some (.place .noWordEdge)
  | 'Z' => some (.place .textEnd)
  | _ => none

/-- A code of exactly `n` hexadecimal digits behind the letter `c`. -/
def readHexEscape (c : Char) (n : Nat) (pos : Nat) : Read Escape := do
  let cs ← takeWhile isHex n
  if cs.length != n then fail ("incomplete escape \\" ++ String.ofList (c :: cs)) pos
  let code := baseValue 16 cs
  if 0x10ffff < code then fail ("bad escape \\" ++ String.ofList (c :: cs)) pos
  return .code code

/-- Escapes that mean the same within a set and outside: codes, and characters that are no
letters. -/
def readCommonEscape (c : Char) (pos : Nat) : Read Escape := do
  if c = 'x' then readHexEscape c 2 pos
  else if c = 'u' then readHexEscape c 4 pos
  else if c = 'U' then readHexEscape c 8 pos
  else if c = 'N' then
    if !(← accept '{') then fail "missing \x7b" (← position)
    let name ← takeName '}' "character name"
    fail ("undefined character name " ++ Text.messageQuoted name) pos
  else if c.isAlphanum then fail ("bad escape \\" ++ c.toString) pos
  else return .code c.toNat

/-- An escape within a set. -/
def readSetEscape (c : Char) (pos : Nat) : Read Escape := do
  match controlEscape? c, categoryEscape? c with
  | some code, _ => return .code code
  | _, some e => return e
  | none, none =>
    if isOctal c then
      let cs := c :: (← takeWhile isOctal 2)
      let code := baseValue 8 cs
      if 0o377 < code then
        fail ("octal escape value \\" ++ String.ofList cs ++ " outside of range 0-0o377") pos
      return .code code
    else readCommonEscape c pos

/-- A reference must lead to a group that is closed and, while looking behind, was closed
before. -/
def checkReference (index : Nat) (pos : Nat) : Read Unit := do
  let r ← get
  match r.behindFrom with
  | none => return
  | some first =>
    if (r.width? index).isNone then fail "cannot refer to an open group" pos
    if first ≤ index then
      fail "cannot refer to group defined in the same lookbehind subpattern" pos

/-- A reference to a group by number, or an octal code of three digits. -/
def readNumberEscape (c : Char) (pos : Nat) : Read Escape := do
  let reference (cs : List Char) : Read Escape := do
    let index := baseValue 10 cs
    let r ← get
    if r.nextGroup ≤ index then fail ("invalid group reference " ++ toString index) (pos + 1)
    if (r.width? index).isNone then fail "cannot refer to an open group" pos
    checkReference index (← position)
    return .backref index
  match ← takeWhile Char.isDigit 1 with
  | [] => reference [c]
  | d :: _ =>
    if isOctal c && isOctal d then
      match ← takeWhile isOctal 1 with
      | [] => reference [c, d]
      | e :: _ =>
        let code := baseValue 8 [c, d, e]
        if 0o377 < code then
          fail ("octal escape value \\" ++ String.ofList [c, d, e] ++
            " outside of range 0-0o377") pos
        return .code code
    else reference [c, d]

/-- An escape outside of sets. -/
def readEscape (c : Char) (pos : Nat) : Read Escape := do
  match categoryEscape? c, placeEscape? c, controlEscape? c with
  | some e, _, _ | none, some e, _ => return e
  | none, none, some code => return .code code
  | none, none, none =>
    if c = '0' then return .code (baseValue 8 (← takeWhile isOctal 2))
    else if c.isDigit then readNumberEscape c pos
    else readCommonEscape c pos

/-! ## Sets -/

/-- One end of a range, or a member on its own. -/
def readSetMember (t : Token) : Read SetItem := do
  match t with
  | .escaped c p =>
    match ← readSetEscape c p with
    | .code n => return .code n
    | .category k negated => return .category k negated
    | _ => fail "bad escape" p
  | t => return .code ((t.chars.headD ' ').toNat)

/-- The members of a set up to its closing bracket, which is a member where it comes first. -/
def readSetItems (start : Nat) : (fuel : Nat) → List SetItem → Read (List SetItem)
  | 0, items => return items.reverse
  | fuel + 1, items => do
    match ← take with
    | none => fail "unterminated character set" start
    | some t =>
      match t, items with
      | .plain ']' _, _ :: _ => return items.reverse
      | _, _ =>
        let first ← readSetMember t
        if !(← accept '-') then readSetItems start fuel (first :: items)
        else
          match ← take with
          | none => fail "unterminated character set" start
          | some (.plain ']' _) => return (SetItem.code 45 :: first :: items).reverse
          | some u =>
            let last ← readSetMember u
            let range := "bad character range " ++ String.ofList (t.chars ++ '-' :: u.chars)
            match first, last with
            | .code a, .code b =>
              if b < a then fail range t.pos
              readSetItems start fuel (.range a b :: items)
            | _, _ => fail range t.pos

/-! ## Repetitions -/

/-- The bound that digits write; none of them write zero. -/
def readBound (digits : List Char) : Read Nat := do
  if 4300 < digits.length then throw (.countTooLong digits.length)
  let bound := baseValue 10 digits
  if countLimit ≤ bound then throw .countTooLarge
  return bound

/-- The bounds between braces; `none` when the braces write no bounds. -/
def readBounds (start : Nat) : Read (Option (Nat × Option Nat)) := do
  let r ← get
  let fuel := r.rest.length
  let low ← takeWhile Char.isDigit fuel
  let high ← if ← accept ',' then takeWhile Char.isDigit fuel else pure low
  if !(← accept '}') then
    set r
    return none
  let least ← readBound low
  let most ← readBound high
  if !high.isEmpty && most < least then
    fail "min repeat greater than max repeat" (start + 1)
  return some (least, if high.isEmpty then none else some most)

/-- Repeats the last item. -/
def repeatLast (start : Nat) (least : Nat) (most : Option Nat) (items : List Node) :
    Read (List Node) := do
  match items with
  | [] | .place .. :: _ => fail "nothing to repeat" start
  | .loop .. :: _ => fail "multiple repeat" start
  | item :: items =>
    let again (greed : Greed) : List Node := .loop greed least most item :: items
    if ← accept '?' then return again .lazy
    if ← accept '+' then return again .possessive
    return again .greedy

/-! ## Flags within a pattern -/

/-- Sets the flag of a letter. -/
def Flags.put (f : Flags) (c : Char) (value : Bool) : Flags :=
  match c with
  | 'i' => { f with ignoreCase := value }
  | 'm' => { f with multiline := value }
  | 's' => { f with dotAll := value }
  | 'x' => { f with verbose := value }
  | 'a' => { f with ascii := value }
  | 'u' => { f with ascii := false }
  | _ => f

def isFlag (c : Char) : Bool :=
  "aiLmstux".toList.contains c

/-- A letter of any script. -/
def isLetter (c : Char) : Bool :=
  Text.isAlphanumeric c && !Text.isDigit c

/-- A character that can stand behind flags. -/
def takeAfterFlag (missing : String) : Read (Char × Nat) := do
  match ← take with
  | none => fail missing (← position)
  | some (.plain c p) => return (c, p)
  | some t => fail missing t.pos

/-- The flags to turn on, from the first letter on, and the character behind them. -/
def readFlagsOn (on : List Char) : (fuel : Nat) → Char → Read (List Char × Char × Nat)
  | 0, c => return (on, c, 0)
  | fuel + 1, c => do
    let on := c :: on
    if c = 'L' then
      fail "bad inline flags: cannot use 'L' flag with a str pattern" (← position)
    if on.contains 'a' && on.contains 'u' then
      fail "bad inline flags: flags 'a', 'u' and 'L' are incompatible" (← position)
    let (next, pos) ← takeAfterFlag "missing -, : or )"
    if next = ')' || next = '-' || next = ':' then return (on, next, pos)
    if !isFlag next then
      fail (if isLetter next then "unknown flag" else "missing -, : or )") pos
    readFlagsOn on fuel next

/-- The flags to turn off, from the first letter on, up to the colon behind them. -/
def readFlagsOff (off : List Char) : (fuel : Nat) → Char → Read (List Char)
  | 0, _ => return off
  | fuel + 1, c => do
    if c = 'a' || c = 'u' || c = 'L' then
      fail "bad inline flags: cannot turn off flags 'a', 'u' and 'L'" (← position)
    let (next, pos) ← takeAfterFlag "missing :"
    if next = ':' then return c :: off
    if !isFlag next then fail (if isLetter next then "unknown flag" else "missing :") pos
    readFlagsOff (c :: off) fuel next

/-- The flags of `(?flags)` or `(?flags-flags:`, from the first character on; nothing for the
first form, which sets them for the whole pattern. -/
def readFlags (flags : Flags) (c : Char) (pos : Nat) : Read (Option Flags) := do
  let fuel := (← get).rest.length + 1
  let (on, stop, stopPos) ← if c = '-' then pure ([], c, pos) else readFlagsOn [] fuel c
  let put (value : Bool) (letters : List Char) (f : Flags) : Flags :=
    letters.foldl (fun f c => f.put c value) f
  if stop = ')' then
    modify fun r => { r with flags := put true on r.flags, letters := r.letters ++ on }
    return none
  if on.contains 't' then fail "bad inline flags: cannot turn on global flag" stopPos
  if stop = ':' then return some (put true on flags)
  let (first, firstPos) ← takeAfterFlag "missing flag"
  if !isFlag first then
    fail (if isLetter first then "unknown flag" else "missing flag") firstPos
  let off ← readFlagsOff [] fuel first
  let colon := (← position) - 1
  if off.contains 't' then fail "bad inline flags: cannot turn off global flag" colon
  if on.any off.contains then fail "bad inline flags: flag turned on and off" colon
  return some (put false off (put true on flags))

/-! ## Groups -/

/-- A name made of letters, digits and underscores that starts with no digit. -/
def isName (s : String) : Bool :=
  match s.toList with
  | [] => false
  | c :: cs => Text.isWord c && !Text.isDigit c && cs.all Text.isWord

def checkName (name : String) (pos : Nat) : Read Unit := do
  if !isName name then fail ("bad character in group name " ++ Text.messageQuoted name) pos

/-- Opens a group and gives its number. -/
def openGroup (name : Option String) (pos : Nat) : Read Nat := do
  let r ← get
  let index := r.nextGroup
  match name with
  | none => set { r with widths := r.widths ++ [none] }
  | some n =>
    match r.names.lookup n with
    | some old =>
      fail ("redefinition of group name " ++ Text.messageQuoted n ++ " as group " ++
        toString index ++ "; was group " ++ toString old) pos
    | none => set { r with widths := r.widths ++ [none], names := (n, index) :: r.names }
  return index

/-- Closes a group. -/
def closeGroup (index : Nat) (body : Node) : Read Unit :=
  modify fun r => { r with widths := r.widths.set (index - 1) (some (r.widthOf body)) }

/-- No pattern has so many groups. -/
def groupLimit : Nat := 1073741823

/-- The number of the group that a condition asks for, by name or by number. -/
def readCondition (pos : Nat) : Read Nat := do
  let name ← takeName ')' "group name"
  if isName name then
    match (← get).names.lookup name with
    | some i => return i
    | none => fail ("unknown group name " ++ Text.messageQuoted name) pos
  else
    match Number.integer? name.toList with
    | some (.ofNat index) =>
      if index = 0 then fail "bad group number" pos
      if groupLimit ≤ index then fail ("invalid group reference " ++ toString index) pos
      modify fun r => { r with asked := r.asked ++ [(index, pos)] }
      return index
    | _ => fail ("bad character in group name " ++ Text.messageQuoted name) pos

/-- Drops a comment up to its parenthesis. -/
def skipComment (start : Nat) : (fuel : Nat) → Read Unit
  | 0 => return
  | fuel + 1 => do
    match ← take with
    | none => fail "missing ), unterminated comment" start
    | some (.plain ')' _) => return
    | some _ => skipComment start fuel

/-- Drops a comment of a verbose pattern up to the end of its line. -/
def skipLine : (fuel : Nat) → Read Unit
  | 0 => return
  | fuel + 1 => do
    match ← take with
    | none | some (.plain '\n' _) => return
    | some _ => skipLine fuel

/-- The closing parenthesis of a group that began at `start`. -/
def closeParen (start : Nat) : Read Unit := do
  if !(← accept ')') then fail "missing ), unterminated subpattern" start

/-- The items of a sequence, the last one first, as a tree. -/
def sequence (items : List Node) : Node :=
  items.foldl (fun tree item => match tree with
    | .empty => item
    | tree => .seq item tree) .empty

/-- How a parenthesis opens. -/
inductive Opening where
  | group (name : Option String)
  | plain (flags : Flags)
  | atomic
  | look (behind negated : Bool)
  | condition (index : Nat)
  | item (node : Node)
  | nothing
  | flagsForAll

/-- What follows an opening parenthesis, up to the contents of the group. -/
def readOpening (flags : Flags) (start : Nat) : Read Opening := do
  if !(← accept '?') then return .group none
  let char : Read Token := do
    match ← take with
    | none => fail "unexpected end of pattern" (← position)
    | some t => return t
  let t ← char
  let unknown (lead : String) (t : Token) : Read Opening :=
    fail ("unknown extension " ++ lead ++ String.ofList t.chars) (start + 1)
  match t with
  | .plain 'P' _ =>
    if ← accept '<' then
      let pos ← position
      let name ← takeName '>' "group name"
      checkName name pos
      return .group (some name)
    else if ← accept '=' then
      let pos ← position
      let name ← takeName ')' "group name"
      checkName name pos
      match (← get).names.lookup name with
      | none => fail ("unknown group name " ++ Text.messageQuoted name) pos
      | some i =>
        let r ← get
        if (r.width? i).isNone then fail "cannot refer to an open group" pos
        checkReference i (← position)
        return .item (.backref flags i)
    else unknown "?P" (← char)
  | .plain ':' _ => return .plain flags
  | .plain '#' _ =>
    skipComment start ((← get).rest.length + 1)
    return .nothing
  | .plain '=' _ => return .look false false
  | .plain '!' _ => return .look false true
  | .plain '<' _ =>
    match ← char with
    | .plain '=' _ => return .look true false
    | .plain '!' _ => return .look true true
    | t => unknown "?<" t
  | .plain '(' _ =>
    let pos ← position
    let index ← readCondition pos
    checkReference index (← position)
    return .condition index
  | .plain '>' _ => return .atomic
  | .plain c p =>
    if isFlag c || c = '-' then
      match ← readFlags flags c p with
      | none => return .flagsForAll
      | some flags => return .plain flags
    else unknown "?" t
  | t => unknown "?" t

mutual

/-- Alternatives up to the end of the group.  At the top the flags set for the whole pattern
hold from the next alternative on. -/
def readAlternatives : (fuel : Nat) → Flags → (top first : Bool) → Read Node
  | 0, _, _, _ => return .empty
  | fuel + 1, flags, top, first => do
    let node ← readSequence fuel flags (top && first) []
    if ← accept '|' then
      let whole := (← get).flags
      let flags := if top then whole else flags
      let more ← readAlternatives fuel flags top false
      return .either node more
    else return node

/-- Items up to a bar or a closing parenthesis; those read so far stand last first. -/
def readSequence : (fuel : Nat) → Flags → (first : Bool) → List Node → Read Node
  | 0, _, _, items => return sequence items
  | fuel + 1, flags, first, items => do
    let more (item : Node) : Read Node := readSequence fuel flags first (item :: items)
    match ← peek with
    | none | some (.plain '|' _) | some (.plain ')' _) => return sequence items
    | some t =>
      discard take
      match t with
      | .dangling _ => return sequence items
      | .escaped c p =>
        match ← readEscape c p with
        | .code n => more (.char flags (.code n))
        | .category k negated => more (.char flags (.set negated [.category k false]))
        | .place anchor => more (.place flags anchor)
        | .backref i => more (.backref flags i)
      | .plain c start =>
        if flags.verbose && " \t\n\r\x0b\x0c".toList.contains c then
          readSequence fuel flags first items
        else if flags.verbose && c = '#' then
          skipLine ((← get).rest.length + 1)
          readSequence fuel flags first items
        else
          match c with
          | '.' => more (.char flags .any)
          | '^' => more (.place flags .lineStart)
          | '$' => more (.place flags .lineEnd)
          | '[' =>
            let negated ← accept '^'
            let set ← readSetItems start ((← get).rest.length + 1) []
            more (.char flags (.set negated set))
          | '?' => readSequence fuel flags first (← repeatLast start 0 (some 1) items)
          | '*' => readSequence fuel flags first (← repeatLast start 0 none items)
          | '+' => readSequence fuel flags first (← repeatLast start 1 none items)
          | '{' =>
            let bounds ← match ← peek with
              | some (.plain '}' _) => pure none
              | _ => readBounds start
            match bounds with
            | none => more (.char flags (.code 123))
            | some (least, most) =>
              readSequence fuel flags first (← repeatLast start least most items)
          | '(' =>
            match ← readOpening flags start with
            | .nothing => readSequence fuel flags first items
            | .item node => more node
            | .flagsForAll =>
              if !first || !items.isEmpty then
                fail "global flags not at the start of the expression" start
              readSequence fuel (← get).flags first items
            | .group name =>
              let index ← openGroup name (start + 4)
              let body ← readAlternatives fuel flags false false
              closeParen start
              closeGroup index body
              more (.group (some index) body)
            | .plain inner =>
              let body ← readAlternatives fuel inner false false
              closeParen start
              more (.group none body)
            | .atomic =>
              let body ← readAlternatives fuel flags false false
              closeParen start
              more (.atomic body)
            | .look false negated =>
              let body ← readAlternatives fuel flags false false
              closeParen start
              more (.ahead negated body)
            | .look true negated =>
              let outer := (← get).behindFrom
              if outer.isNone then
                modify fun r => { r with behindFrom := some r.nextGroup }
              let body ← readAlternatives fuel flags false false
              if outer.isNone then modify fun r => { r with behindFrom := none }
              closeParen start
              let width := (← get).widthOf body
              if width.most != some width.least then
                modify fun r => { r with unevenBehind := true }
              more (.behind negated width.least body)
            | .condition index =>
              let present ← readSequence fuel flags false []
              let absent ← if ← accept '|' then
                  let absent ← readSequence fuel flags false []
                  if let some (.plain '|' p) ← peek then
                    fail "conditional backref with more than two branches" p
                  pure absent
                else pure .empty
              closeParen start
              more (.branch index present absent)
          | c => more (.char flags (.code c.toNat))

end

/-- The whole pattern, with the checks that wait for its end. -/
def readWhole (flags : Flags) : Read Node := do
  let node ← readAlternatives (2 * (← get).rest.length + 2) flags true true
  let letters := (← get).letters
  if letters.contains 'a' && letters.contains 'u' then throw .scriptsClash
  if (← peek).isSome then fail "unbalanced parenthesis" (← position)
  let r ← get
  match r.asked.find? (r.nextGroup ≤ ·.1) with
  | some (index, pos) => fail ("invalid group reference " ++ toString index) pos
  | none => pure ()
  if r.unevenBehind then
    throw (.wrong "look-behind requires fixed-width pattern" r.size)
  return node

/-- Where a position lies, in words. -/
def placeWords (body : List Char) (pos : Nat) : String :=
  let before := body.take pos
  let lines := before.count '\n'
  let column := (before.reverse.takeWhile (· != '\n')).length + 1
  let plain := " at position " ++ toString pos
  if body.contains '\n' then
    plain ++ " (line " ++ toString (lines + 1) ++ ", column " ++ toString column ++ ")"
  else plain

/-- The tree of a pattern text, and the number of its groups. -/
def read (body : String) (flags : Flags) : Except Fault (Node × Nat) :=
  let cs := body.toList
  let start : Reader := { rest := tokens 0 cs, size := cs.length, flags := flags }
  match (readWhole flags).run start with
  | .ok (node, r) => .ok (node, r.widths.length)
  | .error .countTooLarge => .error .repeatTooLarge
  | .error (.countTooLong digits) => .error (.tooManyDigits digits)
  | .error .scriptsClash => .error .scriptsClash
  | .error (.wrong reason pos) =>
    let words := if reason = "look-behind requires fixed-width pattern" then reason
      else reason ++ placeWords cs pos
    .error (.invalidPattern body words)

end NoteQuery.Pattern
