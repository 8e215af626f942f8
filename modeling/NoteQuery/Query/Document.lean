/-
Documents.

A document is the properties of a note together with the record of its file.  Files are found by
path first, then by name and by name without ending; where names clash, the first path in order
has the name.
-/
import NoteQuery.Value.Basic
import NoteQuery.Value.Key

namespace NoteQuery

/-- The properties of a note and the record of its file. -/
structure Document where
  note : Entries
  file : FileRecord Value

/-- Files by the names under which they can be found. -/
abbrev FileIndex := List (String × FileRecord Value)

namespace FileIndex

/-- Puts a file under a name, in the place of the one that is there. -/
def put (index : FileIndex) (key : String) (file : FileRecord Value) : FileIndex :=
  match index with
  | [] => [(key, file)]
  | (k, f) :: rest => if k = key then (k, file) :: rest else (k, f) :: put rest key file

/-- Puts a file under a name, unless there is one. -/
def putNew (index : FileIndex) (key : String) (file : FileRecord Value) : FileIndex :=
  if (index.lookup key).isSome then index else index ++ [(key, file)]

/-- Puts a file under its name and its name without ending. -/
def putNames (index : FileIndex) (file : FileRecord Value) : FileIndex :=
  let index := index.putNew file.name file
  if file.basename = "" then index else index.putNew file.basename file

end FileIndex

namespace Document

/-- Documents by path. -/
def sortByPath (docs : List Document) : List Document :=
  docs.mergeSort fun d e => d.file.path ≤ e.file.path

/-- The index of the files of documents. -/
def index (docs : List Document) : FileIndex :=
  let files := (sortByPath docs).map Document.file
  let byPath := files.foldl (fun index f => FileIndex.put index f.path f) []
  files.foldl FileIndex.putNames byPath

end Document

end NoteQuery
