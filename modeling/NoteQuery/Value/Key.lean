/-
Keys of mappings.

Any value that does not change may be a key.  Two keys are the same key when their values are
equal, where an integer, a binary number and a truth value count as numbers; so `1`, `1.0` and
`true` are one key.  Putting a value under a key that is there replaces the value and keeps the
place and the spelling of the key.
-/
import NoteQuery.Value.Basic

namespace NoteQuery

namespace Value

/-- The number that a key counts as. -/
def keyNumber? : Value → Option Number
  | bool b => some (.int (if b then 1 else 0))
  | number n => some n
  | _ => none

/-- The timestamps are the same moment, or show the same if they have no zone. -/
def sameMoment (t u : Timestamp) : Bool :=
  t.zone.isSome == u.zone.isSome && t.instant == u.instant

/-- The durations have the same units with equal amounts. -/
def sameParts : List DurationPart → List DurationPart → Bool
  | [], [] => true
  | p :: ps, q :: qs => p.unit == q.unit && p.amount.same q.amount && sameParts ps qs
  | _, _ => false

/-- The values are one key. -/
def sameKey : Value → Value → Bool
  | null, null => true
  | string s, string t => s == t
  | date d, date e => d == e
  | timestamp t, timestamp u => sameMoment t u
  | duration d, duration e => sameParts d.parts e.parts
  | pattern p, pattern q => p.body == q.body && p.flags == q.flags
  | link p d, link q e => p == q && sameKey d e
  | html s, html t => s == t
  | image s, image t => s == t
  | icon s, icon t => s == t
  | bytes b, bytes c => b == c
  | v, w =>
    match keyNumber? v, keyNumber? w with
    | some m, some n => m.same n
    | _, _ => false

end Value

/-- Things under keys, in the order in which they were put in. -/
abbrev Keyed (α : Type) := List (Value × α)

namespace Keyed

variable {α : Type}

/-- What is under a key. -/
def find? (things : Keyed α) (key : Value) : Option α :=
  (List.find? (fun e => e.1.sameKey key) things).map (·.2)

/-- Puts something under a key. -/
def put (things : Keyed α) (key : Value) (thing : α) : Keyed α :=
  match things with
  | [] => [(key, thing)]
  | (k, a) :: rest =>
    if k.sameKey key then (k, thing) :: rest else (k, a) :: put rest key thing

/-- Things under keys, later ones for a key in the place of the first. -/
def ofList (pairs : List (Value × α)) : Keyed α :=
  pairs.foldl (fun things (k, a) => put things k a) []

/-- The keys. -/
def keys (things : Keyed α) : List Value :=
  things.map (·.1)

end Keyed

namespace Entries

/-- The value under a key. -/
def find? (entries : Entries) (key : Value) : Option Value :=
  Keyed.find? entries key

/-- The value under the key that is this text. -/
def get? (entries : Entries) (key : String) : Option Value :=
  find? entries (.string key)

/-- The text is a key. -/
def has (entries : Entries) (key : String) : Bool :=
  (get? entries key).isSome

/-- Puts a value under a key. -/
def put (entries : Entries) (key value : Value) : Entries :=
  Keyed.put entries key value

/-- Entries with later values for a key in the place of the first. -/
def ofList (pairs : List (Value × Value)) : Entries :=
  Keyed.ofList pairs

/-- Entries under texts. -/
def ofTexts (pairs : List (String × Value)) : Entries :=
  ofList (pairs.map fun (k, v) => (.string k, v))

end Entries

end NoteQuery
