/-
Backlinks.

A note links to another by a name of it: its path, its file name, or its file name without
ending, all in normal form.  Where notes share a name, the last note in order has it.
-/
import NoteQuery.Query.Document

namespace NoteQuery.Backlinks

/-- The names of a note. -/
def names (r : FileRecord Value) : List String :=
  [r.path, r.name, r.basename, r.basename ++ ".md"].map Path.normalize

/-- The names of notes with the paths that they stand for; for a name that stands there more than
once the first entry counts. -/
def directory (documents : List Document) : List (String × String) :=
  (documents.flatMap fun d => (names d.file).map fun name => (name, d.file.path)).reverse

/-- The path of the note that a link leads to; the link may leave out the ending. -/
def target? (directory : List (String × String)) (link : String) : Option String :=
  let name := Path.normalize link
  (directory.lookup name).or
    (if Text.endsWith name ".md" then none else directory.lookup (name ++ ".md"))

/-- The links of a note that are texts. -/
def linkTexts (r : FileRecord Value) : List String :=
  r.links.filterMap fun
    | .string s => some s
    | _ => none

/-- The paths to which the links of a note lead. -/
def targets (directory : List (String × String)) (r : FileRecord Value) : List String :=
  (linkTexts r).filterMap (target? directory)

/-- The paths of the notes that link to a path, in order. -/
def sources (documents : List Document) (path : String) : List String :=
  let names := directory documents
  let linking := documents.filter fun d => (targets names d.file).contains path
  ((linking.map fun d => d.file.path).eraseDups).mergeSort fun p q => p ≤ q

/-- The notes with the paths of those that link to them. -/
def fill (documents : List Document) : List Document :=
  documents.map fun d =>
    { d with file :=
        { d.file with backlinks := (sources documents d.file.path).map Value.string } }

end NoteQuery.Backlinks
