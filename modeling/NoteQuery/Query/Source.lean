/-
Where queries come from.

A query is read from a file of YAML, or from a text that is YAML itself unless it is the path of
a file.
-/
import NoteQuery.Log
import NoteQuery.Query.Prepared
import NoteQuery.Query.Schema
import NoteQuery.Vault.Place

namespace NoteQuery.QuerySpec

/-- What the log tells of a query that was read. -/
def loadNote (q : QuerySpec) : String :=
  "Loaded query with " ++ toString q.views.length ++ " view(s), " ++
    toString q.formulas.length ++ " formula(s)"

/-- The query of a text of YAML. -/
def load (text : String) : Logged QueryFailure QuerySpec := do
  let q ← Logged.ofExcept (ofYaml text)
  Logged.note .debug .documents q.loadNote
  return q

/-- The query of the file that stands under a path. -/
def loadFile (path : String) (place : Place) : Logged QueryFailure QuerySpec := do
  let text ← Logged.ofExcept (do (← place.openFile (Path.tidy path)).text)
  load text

/-- The query of a text, or of the file whose path it is. -/
def loadText (source : String) (place : Place) : Logged QueryFailure QuerySpec :=
  match source.toList.contains '\n', place with
  | true, _ => load source
  | false, .tooLong => throw (.fault (.pathTooLong (Path.tidy source)))
  | false, .file _ => loadFile source place
  | false, _ => load source

end NoteQuery.QuerySpec
