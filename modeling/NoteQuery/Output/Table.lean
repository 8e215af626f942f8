/-
Tables of Markdown.

Bars within a cell are escaped and line feeds become spaces, so that each row is one line.
-/
import NoteQuery.Text.Cut

namespace NoteQuery.Table

/-- A cell as it is written. -/
def cell (s : String) : String :=
  Text.replace "\n" " " (Text.replace "|" "\\|" s)

/-- A line of cells with its line end. -/
def line (cells : List String) : String :=
  "| " ++ Text.join " | " cells ++ " |\n"

/-- A table: a heading, a rule below it, and rows. -/
def write (heading : List String) (rows : List (List String)) : String :=
  let lines := heading.map cell :: (heading.map fun _ => "---") :: rows.map (·.map cell)
  Text.join "" (lines.map line)

end NoteQuery.Table
