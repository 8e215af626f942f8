/-
What comes of loading a query.

A document is accepted, or rejected with a list of all its issues, and with nothing else in the
list (`Tells`).  The list itself can fail: the names of views are gone through before the form of
the document has been judged, so that views that are no collection break it off; and an integer
with too many digits cannot be quoted (`Untold`).  A text adds what is malformed, which is an issue
as well, and what no complaint is made of (`Yaml.Unreadable`).  Documents are trees: where YAML lets
a collection contain itself, a mark stands for it, which no place of the form admits.
-/
import NoteQuery.Proofs.Acceptance
import NoteQuery.Proofs.Yaml.Values

namespace NoteQuery

namespace Schema

variable {v : Value} {live : Bool} {entries : Entries} {line : String}

/-! ## Repeated names -/

end Schema

/-! ## Loading -/

namespace QuerySpec

open Schema

end QuerySpec

end NoteQuery
