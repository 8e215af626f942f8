/-
Patterns.

A pattern is its written body and flags together with the tree that they read as.  It can be
looked for in a text, put in for by a replacement that refers to the groups, and used to cut a
text into pieces.
-/
import NoteQuery.Pattern.Matching
import NoteQuery.Pattern.Reading

namespace NoteQuery

/-- A pattern that has been read. -/
structure Pattern where
  body : String
  flags : String
  tree : Pattern.Node
  groupCount : Nat
deriving DecidableEq

namespace Pattern

/-- The flag letters that a pattern may carry.  `g` asks for all places when text is replaced;
`u`, `y` and `d` change nothing. -/
def knownFlags : List Char := ['i', 'm', 's', 'g', 'u', 'y', 'd']

/-- What the flag letters say about matching. -/
def flagsOf (letters : List Char) : Flags where
  ignoreCase := letters.contains 'i'
  multiline := letters.contains 'm'
  dotAll := letters.contains 's'

/-- Reads a body under flags. -/
def create (body flags : String) : Except Fault Pattern :=
  match flags.toList.find? (!knownFlags.contains ·) with
  | some c => .error (.invalidFlag c)
  | none =>
    (read body (flagsOf flags.toList)).map fun (tree, groupCount) =>
      { body, flags, tree, groupCount }

/-- Replaces all places, not only the first. -/
def isGlobal (p : Pattern) : Bool :=
  p.flags.toList.contains 'g'

/-- The body between slashes, then the flags. -/
def display (p : Pattern) : String :=
  "/" ++ p.body ++ "/" ++ p.flags

/-- The pattern occurs somewhere in the text. -/
def occursIn (p : Pattern) (s : String) : Bool :=
  (search s.toList.toArray p.tree).isSome

/-- The text of a group of a found place, if the group took part. -/
def Found.group? (text : Array Char) (f : Found) (index : Nat) : Option (List Char) :=
  (f.groups.lookup index).map fun (first, last) => span text first last

/-- The text for a reference by number, as it is written when there is no such group. -/
def groupText (p : Pattern) (text : Array Char) (f : Found) (digits : List Char) : List Char :=
  let index := Text.digitsValue digits
  if 0 < index && index ≤ p.groupCount then (f.group? text index).getD [] else '$' :: digits

/-- A replacement for a found place: `$1` to `$99` are groups, `$&` the whole place and `$$` a
dollar sign. -/
def expand (p : Pattern) (text : Array Char) (f : Found) : List Char → List Char
  | '$' :: '$' :: cs => '$' :: p.expand text f cs
  | '$' :: '&' :: cs => span text f.first f.last ++ p.expand text f cs
  | '$' :: c :: d :: cs =>
    if Text.isDigit c then
      if Text.isDigit d then p.groupText text f [c, d] ++ p.expand text f cs
      else p.groupText text f [c] ++ p.expand text f (d :: cs)
    else '$' :: p.expand text f (c :: d :: cs)
  | '$' :: c :: cs =>
    if Text.isDigit c then p.groupText text f [c] ++ p.expand text f cs
    else '$' :: p.expand text f (c :: cs)
  | c :: cs => c :: p.expand text f cs
  | [] => []

/-- The text with the first place, or all places, replaced. -/
def replaceIn (p : Pattern) (replacement s : String) : String :=
  let text := s.toList.toArray
  String.ofList <|
    substitute text (p.expand text · replacement.toList) 0 (places text p.tree p.isGlobal)

/-- The pieces between the places, each place's groups standing between the pieces. -/
def piecesFrom (text : Array Char) (groupCount : Nat) :
    (pos : Nat) → List Found → List (Option (List Char))
  | pos, [] => [some (span text pos text.size)]
  | pos, f :: fs =>
    some (span text pos f.first) ::
      ((List.range groupCount).map fun i => f.group? text (i + 1)) ++
      piecesFrom text groupCount f.last fs

/-- Cuts a text at every place; a group that took no part gives `none`. -/
def split (p : Pattern) (s : String) : List (Option String) :=
  let text := s.toList.toArray
  (piecesFrom text p.groupCount 0 (places text p.tree true)).map (·.map String.ofList)

end Pattern

end NoteQuery
