/-
Values.

What the properties of a note hold and what expressions compute.  Every value has one of
fourteen kinds, and operations choose by kind.  A mapping keeps its entries in the order in
which they were put in.
-/
import NoteQuery.Calendar.Duration
import NoteQuery.Calendar.Timestamp
import NoteQuery.Path
import NoteQuery.Pattern.Basic

namespace NoteQuery

/-- The kinds of values. -/
inductive Kind where
  | null | boolean | number | string | date | duration | regexp | link | file | html | image
  | icon | list | object
deriving DecidableEq

namespace Kind

/-- All kinds. -/
def all : List Kind := [null, boolean, number, string, date, duration, regexp, link, file,
  html, image, icon, list, object]

def name : Kind → String
  | null => "null"
  | boolean => "boolean"
  | number => "number"
  | string => "string"
  | date => "date"
  | duration => "duration"
  | regexp => "regexp"
  | link => "link"
  | file => "file"
  | html => "html"
  | image => "image"
  | icon => "icon"
  | list => "list"
  | object => "object"

/-- The kind of that name. -/
def ofName? (s : String) : Option Kind :=
  all.find? (·.name == s)

end Kind

/-- What is known of a file: its names, where it lies, its size and times, and, if it is a
note, its properties, tags, links to other files, files shown within it, the paths of notes
that link to it, and its text. -/
structure FileRecord (α : Type) where
  name : String
  path : String
  basename : String := ""
  folder : String := ""
  ext : String := ""
  size : Int := 0
  ctime : Timestamp := default
  mtime : Timestamp := default
  properties : List (α × α) := []
  tags : List α := []
  links : List α := []
  embeds : List α := []
  backlinks : List α := []
  raw : String := ""

/-- The record of a path of which nothing else is known. -/
def FileRecord.ofPath {α : Type} (pathLike : String) : FileRecord α :=
  let path := Path.normalize pathLike
  let name := Path.name path
  let (stem, ending) := Path.stemAndEnding name
  { name, path, basename := stem, folder := Path.folder path, ext := ending }

/-- A value.  A mapping is live while formulas are still being collected in it; one that was
stored in itself shows there as a cycle. -/
inductive Value where
  | null
  | bool (b : Bool)
  | number (n : Number)
  | string (s : String)
  | date (d : Date)
  | timestamp (t : Timestamp)
  | duration (d : Duration)
  | pattern (p : Pattern)
  | link (path : String) (display : Value)
  | file (record : FileRecord Value)
  | html (markup : String)
  | image (source : String)
  | icon (name : String)
  | list (items : List Value)
  | mapping (live : Bool) (entries : List (Value × Value))
  | set (items : List Value)
  | bytes (octets : List UInt8)
  | cycle

/-- Keys and values in the order in which they were put in. -/
abbrev Entries := List (Value × Value)

namespace Value

instance : Inhabited Value := ⟨null⟩

/-- A mapping that is nobody's place of work. -/
def object (entries : Entries) : Value :=
  mapping false entries

/-- An integer. -/
def int (n : Int) : Value :=
  number (.int n)

/-- A binary number. -/
def float (x : Binary64) : Value :=
  number (.float x)

/-- The kind of a value. -/
def kind : Value → Kind
  | null => .null
  | bool _ => .boolean
  | number _ => .number
  | string _ => .string
  | date _ | timestamp _ => .date
  | duration _ => .duration
  | pattern _ => .regexp
  | link .. => .link
  | file _ => .file
  | html _ => .html
  | image _ => .image
  | icon _ => .icon
  | list _ => .list
  | mapping .. | set _ | bytes _ | cycle => .object

/-- Everything holds as true but null, false, zero, what is no number, and what is empty. -/
def isTruthy : Value → Bool
  | null => false
  | bool b => b
  | number n => !n.isZero && !n.isNan
  | string s => !s.isEmpty
  | list items => !items.isEmpty
  | mapping _ entries => !entries.isEmpty
  | set items => !items.isEmpty
  | bytes octets => !octets.isEmpty
  | _ => true

/-- The moment of a timestamp, or the start of a day. -/
def moment? : Value → Option Timestamp
  | date d => some (.midnight d)
  | timestamp t => some t
  | _ => none

/-- The path of a link, a file or a text, in the form in which paths are compared. -/
def comparablePath? : Value → Option String
  | link path _ => some (Path.comparable path)
  | file record => some (Path.comparable record.path)
  | string s => some (Path.comparable s)
  | _ => none

end Value

/-! ## Files by field -/

namespace FileRecord

/-- The fields of a file by the names that expressions use. -/
def fields (r : FileRecord Value) : List (String × Value) := [
  ("name", .string r.name), ("basename", .string r.basename), ("path", .string r.path),
  ("folder", .string r.folder), ("ext", .string r.ext), ("size", .int r.size),
  ("ctime", .timestamp r.ctime), ("mtime", .timestamp r.mtime),
  ("properties", .object r.properties), ("tags", .list r.tags), ("links", .list r.links),
  ("embeds", .list r.embeds), ("backlinks", .list r.backlinks), ("raw", .string r.raw)]

/-- A field by name; `file` is the record itself. -/
def field? (r : FileRecord Value) (name : String) : Option Value :=
  if name = "file" then some (.file r) else r.fields.lookup name

end FileRecord

end NoteQuery
