/-
Files and places.

A path leads to a file, to a directory with all files below it, or nowhere.  A tree of files
answers for every path below its top; directories are there because files are in them.
-/
import NoteQuery.Calendar.Timestamp
import NoteQuery.Fault
import NoteQuery.Path

namespace NoteQuery

/-- A file: its path below some directory, its octets and its times. -/
structure StoredFile where
  path : String
  octets : List UInt8
  ctime : Timestamp
  mtime : Timestamp

namespace StoredFile

/-- The text of a file, the replacement character standing for each unreadable place. -/
def looseText (f : StoredFile) : String :=
  Text.withLineFeeds (Text.decodeLoosely f.octets)

/-- The text of a file all of whose octets are readable. -/
def text (f : StoredFile) : Except Fault String :=
  match Text.decode f.octets with
  | .ok s => .ok (Text.withLineFeeds s)
  | .error place => .error (.unreadableText place)

end StoredFile

/-- Where a path leads. -/
inductive Place where
  /-- Nothing is there. -/
  | nothing
  /-- A file stands where the path needs a directory. -/
  | blocked
  /-- The path, or a name in it, is too long. -/
  | tooLong
  | file (f : StoredFile)
  /-- A directory, and the files below it with their paths from there. -/
  | directory (files : List StoredFile)

namespace Place

def isFile : Place → Bool
  | file _ => true
  | _ => false

def isDirectory : Place → Bool
  | directory _ => true
  | _ => false

/-- Opens the file that is there under a path. -/
def openFile (path : String) : Place → Except Fault StoredFile
  | file f => .ok f
  | nothing => .error (.noSuchFile path)
  | blocked => .error (.blockedPath path)
  | tooLong => .error (.pathTooLong path)
  | directory _ => .error (.isADirectory path)

/-- The files below the directory that is there under a path. -/
def openDirectory (path : String) : Place → Except Fault (List StoredFile)
  | directory files => .ok files
  | tooLong => .error (.pathTooLong path)
  | _ => .error (.notADirectory path)

/-- A file can be written under a path: it is there, or `parent`, the place above it, is a
directory. -/
def checkWritable (path : String) (here parent : Place) : Except Fault Unit :=
  match here, parent with
  | file _, _ | nothing, directory _ => .ok ()
  | directory _, _ => .error (.isADirectory path)
  | tooLong, _ => .error (.pathTooLong path)
  | blocked, _ => .error (.blockedPath path)
  | nothing, _ => .error (.noSuchFile path)

end Place

/-- The place above a path. -/
def Path.parent (path : String) : String :=
  match Text.cutLast? '/' (Path.tidy path).toList with
  | some ([], _) => "/"
  | some (front, _) => String.ofList front
  | none => "."

/-! ## Trees -/

/-- Files by their paths below one top. -/
abbrev FileTree := List StoredFile

namespace FileTree

/-- The file of a path. -/
def find? (tree : FileTree) (path : String) : Option StoredFile :=
  List.find? (fun f => f.path == path) tree

/-- Puts a file in the place of the one with its path. -/
def put (tree : FileTree) (f : StoredFile) : FileTree :=
  match tree with
  | [] => [f]
  | g :: rest => if g.path = f.path then f :: rest else g :: put rest f

/-- The way from a directory to a file below it, both given by their segments from the top. -/
def wayBelow? : (directory way : List (List Char)) → Option (List (List Char))
  | [], step :: steps => some (step :: steps)
  | d :: ds, step :: steps => if d = step then wayBelow? ds steps else none
  | _, [] => none

/-- The files below a directory that is given by its segments from the top. -/
def below (tree : FileTree) (directory : List (List Char)) : List StoredFile :=
  tree.filterMap fun f =>
    (wayBelow? directory (Path.segments f.path)).map fun way =>
      { f with path := String.ofList (Text.joinChars ['/'] way) }

/-- The octets of a text. -/
def octetCount (cs : List Char) : Nat :=
  (String.ofList cs).utf8ByteSize

/-- Where steps lead from a directory.  A step that is empty or a point stays, two points go up,
and nothing is known of what is above the top. -/
def walk (tree : FileTree) (here : List (List Char)) : List (List Char) → Place
  | [] => .directory (below tree here)
  | step :: steps =>
    if step = [] || step = ['.'] then walk tree here steps
    else if step = ['.', '.'] then
      if here.isEmpty then .nothing else walk tree here.dropLast steps
    else if 255 < octetCount step then .tooLong
    else
      let there := here ++ [step]
      match find? tree (String.ofList (Text.joinChars ['/'] there)) with
      | some f => if steps.isEmpty then .file f else .blocked
      | none => if (below tree there).isEmpty then .nothing else walk tree there steps

/-- Where a path leads; nothing is known of paths that start at a root. -/
def place (tree : FileTree) (path : String) : Place :=
  if 4095 < octetCount path.toList then .tooLong
  else if path.isEmpty || path.toList.contains '\x00' || Text.startsWith path "/" then .nothing
  else walk tree [] (Path.segments path)

end FileTree

end NoteQuery
