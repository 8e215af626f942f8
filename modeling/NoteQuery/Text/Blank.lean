/-
Blank characters.

Unicode's white space together with the ASCII separators, and the removal of blanks at the
ends of a text.
-/
import NoteQuery.Text.Ranges

namespace NoteQuery.Text

/-- Tabs, line ends, the ASCII separators and the spaces of every width. -/
def blankRanges : List (Nat × Nat) := [
  (0x9, 0xd), (0x1c, 0x20), (0x85, 0x85), (0xa0, 0xa0), (0x1680, 0x1680), (0x2000, 0x200a),
  (0x2028, 0x2029), (0x202f, 0x202f), (0x205f, 0x205f), (0x3000, 0x3000)]

/-- A character that separates words and is removed at the ends of a text. -/
def isBlank (c : Char) : Bool :=
  inRanges blankRanges c

/-- The text from its first character that is not blank. -/
def trimLeft (cs : List Char) : List Char :=
  cs.dropWhile isBlank

/-- The text up to its last character that passes the test not. -/
def trimRightOf (p : Char → Bool) (cs : List Char) : List Char :=
  (cs.reverse.dropWhile p).reverse

/-- The text without the blanks at its ends. -/
def trimChars (cs : List Char) : List Char :=
  trimRightOf isBlank (trimLeft cs)

/-- The text without the blanks at its ends. -/
def trim (s : String) : String :=
  String.ofList (trimChars s.toList)

/-- A text of blanks only. -/
def isBlankText (s : String) : Bool :=
  s.toList.all isBlank

end NoteQuery.Text
