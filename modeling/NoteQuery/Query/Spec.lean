/-
Queries as they are written.

A query has views, each with its own filters, order, columns, grouping, limit and summaries.
The views share filters, formulas, columns to fall back on, and named summaries.
-/
import NoteQuery.Text.Case
import NoteQuery.Value.Key
import NoteQuery.Value.Literal

namespace NoteQuery

/-- Rising or falling. -/
inductive SortDirection where
  | rising | falling
deriving DecidableEq

namespace SortDirection

def name : SortDirection → String
  | rising => "asc"
  | falling => "desc"

/-- Falling if the word says so, whatever its case. -/
def ofWord (word : String) : SortDirection :=
  if Text.lower word = "desc" then falling else rising

end SortDirection

/-- A property by which rows are sorted or grouped, and the direction. -/
structure SortKey where
  property : String
  direction : SortDirection := .rising
deriving DecidableEq

namespace SortKey

/-- A property, or a property and a direction behind a colon. -/
def ofText (entry : String) : SortKey :=
  match Text.cutLast? ':' entry.toList with
  | some (front, tail) =>
    let word := Text.lower (String.ofList (Text.trimChars tail))
    if word = "asc" || word = "desc" then
      { property := String.ofList (Text.trimChars front), direction := .ofWord word }
    else { property := Text.trim entry }
  | none => { property := Text.trim entry }

/-- A property as it is, and a direction. -/
def ofParts (property : String) (direction : Value) : SortKey :=
  { property, direction := .ofWord direction.keyText }

/-- A property and a direction under their names; the property must be there. -/
def ofEntries (entries : Entries) : Except Fault SortKey :=
  match Entries.get? entries "property" with
  | none => .error (.missingKey "property")
  | some property => do
    let direction := (Entries.get? entries "direction").getD .null
    direction.checkWritable
    return ofParts property.keyText direction

end SortKey

/-- A filter as it is written. -/
inductive FilterSpec where
  /-- No filter. -/
  | always
  | expression (source : String)
  /-- All of some, one of some, and not another. -/
  | group (all any : Option (List FilterSpec)) (without : FilterSpec)
  /-- A value that is no filter. -/
  | unsupported (value : Value)

instance : Inhabited FilterSpec := ⟨.always⟩

/-- A view. -/
structure View where
  name : String
  type : String := "table"
  filters : FilterSpec := .always
  sort : List SortKey := []
  columns : Option (List String) := none
  groupBy : Option SortKey := none
  limit : Option Number := none
  summaries : Keyed String := []

/-- A query. -/
structure QuerySpec where
  views : List View
  filters : FilterSpec := .always
  formulas : Keyed String := []
  properties : Option (List String) := none
  summaries : Keyed String := []

end NoteQuery
