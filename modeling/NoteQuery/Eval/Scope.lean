/-
Scopes.

What an expression can refer to: scoped variables, the parts of the row that it belongs to, the
properties of the note, and the files of the vault.  A scope also fixes the clock, the library,
and whether evaluation is strict.
-/
import NoteQuery.Failure
import NoteQuery.Library.Registry
import NoteQuery.Query.Document
import NoteQuery.Value.Order

namespace NoteQuery

/-- Everything that evaluation depends on. -/
structure Scope where
  strict : Bool
  now : Timestamp
  library : Library.Registry
  note : Entries := []
  file : Option (FileRecord Value) := none
  formula : Entries := []
  identity : Option Entries := none
  projected : Option Entries := none
  bindings : List (String × Value) := []
  files : FileIndex := []

namespace Scope

/-- The scope with further variables, which hide others of their names. -/
def withBindings (s : Scope) (bindings : List (String × Value)) : Scope :=
  { s with bindings := bindings ++ s.bindings }

/-- A part of the row by name. -/
def part? (s : Scope) (name : String) : Option Value :=
  match name with
  | "note" => some (.object s.note)
  | "file" => s.file.map .file
  | "formula" => some (.mapping true s.formula)
  | "this" => s.identity.map .object
  | "projected" => s.projected.map .object
  | _ => none

/-- What a name stands for: a variable, a part of the row, or a property of the note. -/
def find? (s : Scope) (name : String) : Option Value :=
  match s.bindings.lookup name with
  | some v => some v
  | none =>
    match s.part? name with
    | some v => some v
    | none => s.note.get? name

/-- Fails when evaluation is strict and gives null otherwise. -/
def fail (s : Scope) (e : EvalError) : Except Failure Value :=
  if s.strict then .error (.evaluation e) else .ok .null

/-- The number that a value converts to. -/
def number (s : Scope) (v : Value) : Except Failure Number :=
  v.toNumber s.strict

/-- The value that a name stands for. -/
def resolve (s : Scope) (name : String) : Except Failure Value :=
  match s.find? name with
  | some v => .ok v
  | none => s.fail (.unknownIdentifier name)

/-! ## Files -/

/-- The name of a file without its last ending. -/
def stemOf (name : String) : String :=
  (Path.stemAndEnding name).1

/-- The names under which a path may be indexed, the most exact first. -/
def fileKeys (pathLike : String) : List String :=
  let path := Path.normalize pathLike
  let name := Path.name path
  let stem := stemOf name
  [path, path ++ ".md", name, stem, stem ++ ".md"]

/-- The indexed file for a path. -/
def lookupFile? (s : Scope) (pathLike : String) : Option (FileRecord Value) :=
  (fileKeys pathLike).findSome? fun key => s.files.lookup key

/-- The file for a path; one that is not indexed is known by its path only. -/
def fileAt (s : Scope) (pathLike : String) : FileRecord Value :=
  (s.lookupFile? pathLike).getD (FileRecord.ofPath pathLike)

/-- The file for a file, a link or a path. -/
def resolveFile (s : Scope) (v : Value) : Value :=
  match v with
  | .file r => .file r
  | .link path _ => .file (s.fileAt path)
  | .string path => .file (s.fileAt path)
  | _ => .null

end Scope

end NoteQuery
