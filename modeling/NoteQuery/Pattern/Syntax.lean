/-
The syntax of patterns.

A pattern is a tree of tests on single characters, places, groups and repetitions.  What the
flags say about case, line ends and scripts is settled when the tree is built, so each leaf
carries the flags that hold where it stands.
-/
import NoteQuery.Text.Blank
import NoteQuery.Text.Case
import NoteQuery.Text.Digit
import NoteQuery.Text.Word

namespace NoteQuery.Pattern

/-- The flags in force at a place of a pattern. -/
structure Flags where
  ignoreCase : Bool := false
  multiline : Bool := false
  dotAll : Bool := false
  verbose : Bool := false
  ascii : Bool := false
deriving DecidableEq

/-- Named classes of characters. -/
inductive Category where
  | digit | space | word
deriving DecidableEq

/-- The category holds the character, within ASCII or beyond. -/
def Category.holds (ascii : Bool) (c : Char) : Category → Bool
  | digit => if ascii then c.isDigit else Text.isDigit c
  | space =>
    if ascii then c == ' ' || (9 ≤ c.toNat && c.toNat ≤ 13) else Text.isBlank c
  | word => if ascii then c.isAlphanum || c == '_' else Text.isWord c

/-- A member of a character set.  Code points are numbers, since a set may name one that no
text can hold. -/
inductive SetItem where
  | code (c : Nat)
  | range (first last : Nat)
  | category (k : Category) (negated : Bool)
deriving DecidableEq

/-! ## Case -/

/-- Small letters that share a capital. -/
def caseSiblings : List (List Nat) := [
  [0x69, 0x131], [0x73, 0x17f], [0xb5, 0x3bc], [0x345, 0x3b9, 0x1fbe], [0x390, 0x1fd3],
  [0x3b0, 0x1fe3], [0x3b2, 0x3d0], [0x3b5, 0x3f5], [0x3b8, 0x3d1], [0x3ba, 0x3f0],
  [0x3c0, 0x3d6], [0x3c1, 0x3f1], [0x3c2, 0x3c3], [0x3c6, 0x3d5], [0x432, 0x1c80],
  [0x434, 0x1c81], [0x43e, 0x1c82], [0x441, 0x1c83], [0x442, 0x1c84, 0x1c85],
  [0x44a, 0x1c86], [0x463, 0x1c87], [0x1c88, 0xa64b], [0x1e61, 0x1e9b], [0xfb05, 0xfb06]]

/-- The small form of a code point. -/
def fold (ascii : Bool) (c : Nat) : Nat :=
  if ascii then if 65 ≤ c && c ≤ 90 then c + 32 else c
  else if 0xd800 ≤ c && c ≤ 0xdfff then c
  else (Text.lowerChar (Char.ofNat c)).toNat

/-- The small letters that a small letter is taken for when case does not count. -/
def siblings (ascii : Bool) (c : Nat) : List Nat :=
  if ascii then [c] else (caseSiblings.find? (·.contains c)).getD [c]

/-- The code points whose small form is `c`. -/
def foldSources (ascii : Bool) (c : Nat) : List Nat :=
  let moved :=
    if ascii then if 97 ≤ c && c ≤ 122 then [c - 32] else []
    else (if c = 0x69 then [0x130] else []) ++
      Text.lowerRuns.filterMap fun r =>
        let d : Int := c - r.shift
        if 0 ≤ d && r.holds d.toNat then some d.toNat else none
  (if fold ascii c = c then [c] else []) ++ moved

/-- Two code points are the same letter when case does not count. -/
def sameLetter (ascii : Bool) (c d : Nat) : Bool :=
  (siblings ascii (fold ascii c)).contains (fold ascii d)

/-- The item holds the character. -/
def SetItem.holds (flags : Flags) (c : Char) : SetItem → Bool
  | code d => if flags.ignoreCase then sameLetter flags.ascii d c.toNat else d = c.toNat
  | range first last =>
    let within (d : Nat) : Bool := first ≤ d && d ≤ last
    if flags.ignoreCase then
      (siblings flags.ascii (fold flags.ascii c.toNat)).any fun s =>
        (foldSources flags.ascii s).any within
    else within c.toNat
  | category k negated => k.holds flags.ascii c != negated

/-! ## Trees -/

/-- A test of one character. -/
inductive CharTest where
  | code (c : Nat)
  | any
  | set (negated : Bool) (items : List SetItem)
deriving DecidableEq

/-- The test holds of the character. -/
def CharTest.holds (flags : Flags) (c : Char) : CharTest → Bool
  | code d => (SetItem.code d).holds flags c
  | any => flags.dotAll || c != '\n'
  | set negated items => items.any (·.holds flags c) != negated

/-- A place between characters. -/
inductive Anchor where
  | lineStart | lineEnd | textStart | textEnd | wordEdge | noWordEdge
deriving DecidableEq

/-- In which order the counts of a repetition are tried; a possessive one tries none but the
first that it reaches. -/
inductive Greed where
  | greedy | lazy | possessive
deriving DecidableEq

/-- A pattern as a tree. -/
inductive Node where
  | empty
  | char (flags : Flags) (test : CharTest)
  | place (flags : Flags) (anchor : Anchor)
  | seq (first second : Node)
  | either (first second : Node)
  | group (index : Option Nat) (body : Node)
  | atomic (body : Node)
  | ahead (negated : Bool) (body : Node)
  | behind (negated : Bool) (width : Nat) (body : Node)
  | backref (flags : Flags) (index : Nat)
  | branch (index : Nat) (present absent : Node)
  | loop (greed : Greed) (least : Nat) (most : Option Nat) (body : Node)
deriving DecidableEq

/-- How few and how many characters a tree takes; `none` is any number. -/
structure Width where
  least : Nat
  most : Option Nat
deriving DecidableEq

namespace Width

def add (v w : Width) : Width :=
  ⟨v.least + w.least, v.most.bind fun a => w.most.map (a + ·)⟩

def either (v w : Width) : Width :=
  ⟨min v.least w.least, v.most.bind fun a => w.most.map (max a ·)⟩

/-- A width so many times. -/
def times (w : Width) (least : Nat) (most : Option Nat) : Width :=
  ⟨least * w.least,
    match w.most, most with
    | some 0, _ => some 0
    | some n, some k => some (n * k)
    | _, some 0 => some 0
    | _, _ => none⟩

end Width

/-- The width of a tree, given the widths of the groups that it refers to. -/
def Node.width (groups : Nat → Width) : Node → Width
  | empty | place .. | ahead .. | behind .. => ⟨0, some 0⟩
  | char .. => ⟨1, some 1⟩
  | seq a b => (a.width groups).add (b.width groups)
  | either a b => (a.width groups).either (b.width groups)
  | group _ a | atomic a => a.width groups
  | backref _ i => groups i
  | branch _ a b => (a.width groups).either (b.width groups)
  | loop _ least most a => (a.width groups).times least most

end NoteQuery.Pattern
