/-
Glob patterns.

A pattern stands for whole paths.  A star takes any run of characters, slashes among them, a
question mark takes one character, and a set in square brackets takes one of its characters.  A
bracket that nothing closes stands for itself.
-/
import NoteQuery.Text.Cut

namespace NoteQuery

namespace Glob

/-! ## Sets of characters -/

/-- One or more characters of a set. -/
inductive SetItem where
  | single (c : Char)
  | range (lo hi : Char)
deriving DecidableEq

namespace SetItem

/-- The item holds the character. -/
def has (item : SetItem) (c : Char) : Bool :=
  match item with
  | single d => c == d
  | range lo hi => lo ≤ c && c ≤ hi

/-- A range whose ends are reversed holds nothing. -/
def isVoid : SetItem → Bool
  | single _ => false
  | range lo hi => hi < lo

/-- The items of a text; a hyphen between two characters makes a range. -/
def ofChars : List Char → List SetItem
  | lo :: '-' :: hi :: cs => range lo hi :: ofChars cs
  | c :: cs => single c :: ofChars cs
  | [] => []

end SetItem

/-- The characters of items, or all others. -/
structure CharSet where
  complement : Bool
  items : List SetItem
deriving DecidableEq

namespace CharSet

/-- The set holds the character. -/
def has (set : CharSet) (c : Char) : Bool :=
  set.items.any (·.has c) != set.complement

/-- The items that hold something. -/
def filled (cs : List Char) : List SetItem :=
  (SetItem.ofChars cs).filter (!·.isVoid)

/-- The set between two brackets.  An exclamation mark in front, ranges that hold nothing aside,
asks for all other characters. -/
def ofChars : List Char → CharSet
  | '!' :: cs => ⟨true, filled cs⟩
  | cs =>
    match filled cs with
    | .single '!' :: items => ⟨true, items⟩
    | .range '!' hi :: items => ⟨true, .single '-' :: .single hi :: items⟩
    | items => ⟨false, items⟩

end CharSet

/-- What a set holds, in front of the closing bracket.  A closing bracket that comes first, or
first behind an exclamation mark, is one of the characters. -/
def setChars? (cs : List Char) : Option (List Char) :=
  let (lead, rest) : List Char × List Char := match cs with
    | '!' :: ']' :: rest => (['!', ']'], rest)
    | '!' :: rest => (['!'], rest)
    | ']' :: rest => ([']'], rest)
    | rest => ([], rest)
  let more := rest.takeWhile (· != ']')
  if more.length < rest.length then some (lead ++ more) else none

/-! ## Patterns -/

/-- A part of a pattern. -/
inductive Part where
  /-- Any run of characters. -/
  | anyRun
  /-- Any one character. -/
  | anyOne
  | exactly (c : Char)
  | oneOf (set : CharSet)
deriving DecidableEq

/-- The part takes a character. -/
def Part.takes (part : Part) (c : Char) : Bool :=
  match part with
  | anyRun | anyOne => true
  | exactly d => c == d
  | oneOf set => set.has c

/-- The parts of a text, when `covered` characters still belong to the set read last.  Several
stars in a row are one. -/
def partsFrom : (covered : Nat) → List Char → List Part
  | _, [] => []
  | covered + 1, _ :: cs => partsFrom covered cs
  | 0, '*' :: cs => if cs.head? = some '*' then partsFrom 0 cs else .anyRun :: partsFrom 0 cs
  | 0, '?' :: cs => .anyOne :: partsFrom 0 cs
  | 0, '[' :: cs =>
    match setChars? cs with
    | some set => .oneOf (.ofChars set) :: partsFrom (set.length + 1) cs
    | none => .exactly '[' :: partsFrom 0 cs
  | 0, c :: cs => .exactly c :: partsFrom 0 cs

/-- The parts stand for the text. -/
def accepts : List Part → List Char → Bool
  | [], cs => cs.isEmpty
  | .anyRun :: parts, [] => accepts parts []
  | .anyRun :: parts, c :: cs => accepts parts (c :: cs) || accepts (.anyRun :: parts) cs
  | _ :: _, [] => false
  | part :: parts, c :: cs => part.takes c && accepts parts cs
termination_by parts cs => (parts.length, cs.length)

/-- The pattern stands for the text. -/
def holds (pattern text : List Char) : Bool :=
  accepts (partsFrom 0 pattern) text

/-- The pattern stands for the path.  Two stars and a slash in front may also stand for
nothing. -/
def selects (pattern path : String) : Bool :=
  holds pattern.toList path.toList ||
    match pattern.toList with
    | '*' :: '*' :: '/' :: rest => holds rest path.toList
    | _ => false

end Glob

/-- Which files are looked at: those that one of some patterns stands for, if there are such
patterns, and none of others. -/
structure Selection where
  includes : List String
  excludes : List String
deriving DecidableEq

/-- The file is looked at. -/
def Selection.has (s : Selection) (path : String) : Bool :=
  (s.includes.isEmpty || s.includes.any (Glob.selects · path)) &&
    !s.excludes.any (Glob.selects · path)

end NoteQuery
