/-
Comma-separated records.

A field that holds a comma, a quote or the character that ends records stands between quotes, and
quotes in it are written twice.  A record of one empty field is written as two quotes, so that it
shows.
-/
import NoteQuery.Text.Cut

namespace NoteQuery.Csv

/-- A character that needs quotes around its field. -/
def needsQuotes (c : Char) : Bool :=
  c == ',' || c == '"' || c == '\n'

/-- Every quote twice. -/
def doubled : List Char → List Char
  | [] => []
  | c :: cs => if c = '"' then '"' :: '"' :: doubled cs else c :: doubled cs

/-- A field as it is written. -/
def field (s : String) : List Char :=
  let cs := s.toList
  if cs.any needsQuotes then '"' :: doubled cs ++ ['"'] else cs

/-- A record with its line end. -/
def record (fields : List String) : List Char :=
  let line := match fields with
    | [""] => ['"', '"']
    | fields => Text.joinChars [','] (fields.map field)
  line ++ ['\n']

/-- Records one after the other. -/
def write (records : List (List String)) : String :=
  String.ofList (records.flatMap record)

end NoteQuery.Csv
