/-
Structural keys of values.

A text that depends on the structure of a value only: the order of a mapping's entries does not
show in it, and separators within texts are quoted.  Dates show as epoch milliseconds, links and
files as their normal paths.
-/
import NoteQuery.Value.Display

namespace NoteQuery

namespace Value

/-- The text between double quotes. -/
def quotedChars (s : String) : List Char :=
  (Text.dataQuoted s).toList

/-- The kind's name and a quoted text. -/
def taggedChars (tag : Kind) (s : String) : List Char :=
  tag.name.toList ++ ':' :: quotedChars s

/-- The key of a day or a timestamp. -/
def momentKey (t : Timestamp) : Except Fault (List Char) := do
  return "date:".toList ++ Number.integerText (← t.epochMillis)

/-- The key of a duration. -/
def durationKey (d : Duration) : Except Fault (List Char) := do
  (duration d).checkWritable
  return "duration:".toList ++
    Text.joinChars ['|'] (d.parts.map fun p => (Duration.partText p).toList)

/-- Entries by the texts of their keys. -/
def sortByText {α : Type} (entries : List (String × α)) : List (String × α) :=
  entries.mergeSort fun e f => e.1 ≤ f.1

/-- An entry of a mapping as it stands in the key. -/
def entryChars (entry : String × Except Fault (List Char)) : Except Fault (List Char) := do
  return quotedChars entry.1 ++ ':' :: (← entry.2)

/-- The key of a mapping from the keys of its values.  Of several values without a key the first in
the order of the entries' texts is the one that tells why there is none. -/
def mappingKey (entries : List (String × Except Fault (List Char))) :
    Except Fault (List Char) := do
  let texts ← (sortByText entries).mapM entryChars
  return '{' :: Text.joinChars [','] texts ++ ['}']

mutual

/-- The structural key, as characters. -/
def stableChars : Value → Except Fault (List Char)
  | null => .ok "null".toList
  | date d => momentKey (.midnight d)
  | timestamp t => momentKey t
  | duration d => durationKey d
  | link path _ => .ok ("link:".toList ++ quotedChars (Path.normalize path))
  | file r => .ok ("file:".toList ++ quotedChars (Path.normalize r.path))
  | list items => do return '[' :: Text.joinChars [','] (← stableItems items) ++ [']']
  | mapping _ entries => do
    entries.forM fun e => e.1.checkWritable
    mappingKey (stableEntries entries)
  | cycle => .error .selfContaining
  | v => do return taggedChars v.kind (← v.display)

def stableItems : List Value → Except Fault (List (List Char))
  | [] => .ok []
  | v :: vs => do
    let key ← v.stableChars
    let keys ← stableItems vs
    return key :: keys

/-- The texts of keys, each with the outcome for its value. -/
def stableEntries : Entries → List (String × Except Fault (List Char))
  | [] => []
  | (k, v) :: rest => (k.keyText, v.stableChars) :: stableEntries rest

end

/-- The structural key. -/
def stableKey (v : Value) : Except Fault String :=
  v.stableChars.map String.ofList

end Value

end NoteQuery
