/-
Paths of notes.

A path has segments between slashes.  Backslashes count as slashes, and a leading `./` and
blanks at the ends do not count.  Where notes are compared, the ending `.md` does not count
either, in whatever case it is written.
-/
import NoteQuery.Text.Blank
import NoteQuery.Text.Cut

namespace NoteQuery.Path

/-- Drops one leading `./`. -/
def dropHere : List Char → List Char
  | '.' :: '/' :: cs => cs
  | cs => cs

/-- The path with slashes only, without a leading `./` and without blanks at its ends. -/
def normalChars (cs : List Char) : List Char :=
  Text.trimChars (dropHere (cs.map fun c => if c = '\\' then '/' else c))

/-- The path with slashes only, without a leading `./` and without blanks at its ends. -/
def normalize (path : String) : String :=
  String.ofList (normalChars path.toList)

/-- Drops a final `.md`; a last line end may stand behind it. -/
def dropNoteEnding : List Char → List Char
  | [] => []
  | '.' :: m :: d :: cs =>
    if m.toLower = 'm' && d.toLower = 'd' && (cs = [] || cs = ['\n']) then cs
    else '.' :: dropNoteEnding (m :: d :: cs)
  | c :: cs => c :: dropNoteEnding cs

/-- The path without a final `.md`. -/
def withoutNoteEnding (path : String) : String :=
  String.ofList (dropNoteEnding path.toList)

/-- The form in which paths are compared. -/
def comparable (path : String) : String :=
  withoutNoteEnding (normalize path)

/-- The last segment. -/
def name (path : String) : String :=
  match Text.cutLast? '/' path.toList with
  | some (_, name) => String.ofList name
  | none => path

/-- What stands before the last segment; nothing at the root. -/
def folder (path : String) : String :=
  match Text.cutLast? '/' path.toList with
  | some (folder, _) => String.ofList folder
  | none => ""

/-- A file name cut at its last point: the stem, and the ending with its point. -/
def stemAndEnding (name : String) : String × String :=
  match Text.cutLast? '.' name.toList with
  | some (stem, ending) => (String.ofList stem, String.ofList ('.' :: ending))
  | none => (name, "")

/-- A file name cut at its last point, but not at a point that stands at an end of it: the stem,
and the ending with its point. -/
def innerStemAndEnding (name : String) : String × String :=
  match Text.cutLast? '.' name.toList with
  | some (stem@(_ :: _), ending@(_ :: _)) => (String.ofList stem, String.ofList ('.' :: ending))
  | _ => (name, "")

/-- The segments of a path. -/
def segments (path : String) : List (List Char) :=
  Text.pieces ['/'] path.toList

/-- The slashes at the start of a path that count: none, one, or exactly two. -/
def root (cs : List Char) : List Char :=
  match (cs.takeWhile (· == '/')).length with
  | 0 => []
  | 2 => ['/', '/']
  | _ => ['/']

/-- The path without empty segments and without points that stand for the place itself; a path of
nothing else is a point. -/
def tidy (path : String) : String :=
  let steps := (segments path).filter fun step => !step.isEmpty && step != ['.']
  match root path.toList, steps with
  | [], [] => "."
  | root, steps => String.ofList (root ++ Text.joinChars ['/'] steps)

end NoteQuery.Path
