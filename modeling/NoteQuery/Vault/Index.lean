/-
The index of a vault.

The files below a directory are gone through in the order of their paths.  Those that the
selection has and whose names end in `.md` are notes; each gives a document with the metadata of
its text.  Front matter that gives no properties is passed over with a warning.
-/
import NoteQuery.Log
import NoteQuery.Text.Case
import NoteQuery.Vault.Backlinks
import NoteQuery.Vault.Glob
import NoteQuery.Vault.Markdown
import NoteQuery.Vault.Place

namespace NoteQuery

/-- The documents of a vault and how many files were seen. -/
structure VaultIndex where
  documents : List Document
  scannedFiles : Nat

namespace VaultIndex

/-- The file is a note by its name. -/
def isNote (path : String) : Bool :=
  Text.endsWith (Text.lower path) ".md"

/-- The record of a note that is not yet linked with others. -/
def recordOf (f : StoredFile) (raw : String) (m : Markdown.Metadata) : FileRecord Value :=
  let name := Path.name f.path
  let (stem, ending) := Path.innerStemAndEnding name
  { name
    path := f.path
    basename := stem
    folder := Path.folder f.path
    ext := ending
    size := f.octets.length
    ctime := f.ctime
    mtime := f.mtime
    properties := m.properties
    tags := m.tags.map Value.string
    links := m.links.map Value.string
    embeds := m.embeds.map Value.string
    raw }

/-- The document of a note. -/
def documentOf (f : StoredFile) : Logged Fault Document := do
  let raw := f.looseText
  let (metadata, trouble) ← Logged.ofExcept (Markdown.read raw)
  if let some e := trouble then
    Logged.note .warning .notes (f.path ++ ": " ++ e.message)
  return ⟨metadata.properties, recordOf f raw metadata⟩

/-- The documents of notes. -/
def documentsOf : List StoredFile → Logged Fault (List Document)
  | [] => pure []
  | f :: fs => do
    let document ← documentOf f
    let documents ← documentsOf fs
    return document :: documents

/-- The notes among files, by path. -/
def notes (files : List StoredFile) (selection : Selection) : List StoredFile :=
  let chosen := files.filter fun f => selection.has f.path && isNote f.path
  chosen.mergeSort fun f g => f.path ≤ g.path

/-- What the log tells of an index. -/
def summary (root : String) (index : VaultIndex) : String :=
  "Indexed " ++ root ++ ": " ++ toString index.scannedFiles ++ " file(s) scanned, " ++
    toString index.documents.length ++ " markdown document(s)"

/-- The index of the directory that stands under a path. -/
def ofPlace (root : String) (place : Place) (selection : Selection) :
    Logged Fault VaultIndex := do
  let root := Path.tidy root
  let files ← Logged.ofExcept (place.openDirectory root)
  let documents ← documentsOf (notes files selection)
  let index : VaultIndex := ⟨Backlinks.fill documents, files.length⟩
  Logged.note .debug .vault (summary root index)
  return index

end VaultIndex

end NoteQuery
