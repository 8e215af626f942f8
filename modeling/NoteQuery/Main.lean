/-
The program.

The outer layer: it reads the files that a command asks for, runs the command, and writes what
the command leaves behind.
-/
import NoteQuery.CommandLine.Execution
import Std.Time.DateTime.Timestamp

namespace NoteQuery.CommandLine

/-- The timestamp of microseconds since the start of 1970. -/
def ofMicros (micros : Int) : Timestamp :=
  (Timestamp.ofWall? micros none).getD default

/-- The timestamp of the system. -/
def ofSystem (t : IO.FS.SystemTime) : Timestamp :=
  ofMicros (t.sec * 1000000 + t.nsec.toNat / 1000)

/-- The file of an entry of a directory. -/
def storedFile (path : String) (entry : IO.FS.DirEntry) : IO StoredFile := do
  let octets ← IO.FS.readBinFile entry.path
  let changed := ofSystem (← entry.path.metadata).modified
  return { path, octets := octets.toList, ctime := changed, mtime := changed }

/-- The files of an entry of a directory: itself, or all below it. -/
partial def filesOf (above : String) (entry : IO.FS.DirEntry) : IO (List StoredFile) := do
  let path := above ++ entry.fileName
  match (← entry.path.symlinkMetadata).type with
  | .dir =>
    let entries ← entry.path.readDir
    return (← entries.toList.mapM (filesOf (path ++ "/"))).flatten
  | _ =>
    try
      match (← entry.path.metadata).type with
      | .file => return [← storedFile path entry]
      | _ => return []
    catch _ => return []

/-- Where a path leads; files below a directory are read if they are needed. -/
def placeOf (deep : Bool) (path : String) : IO Place := do
  if path.isEmpty || path.toList.contains '\x00' then return .nothing
  if 4095 < path.utf8ByteSize || (Path.segments path).any (255 < FileTree.octetCount ·) then
    return .tooLong
  try
    let real ← IO.FS.realPath path
    match (← real.metadata).type with
    | .dir =>
      if !deep then return .directory []
      let entries ← real.readDir
      return .directory (← entries.toList.mapM (filesOf "")).flatten
    | _ =>
      let octets ← IO.FS.readBinFile path
      let changed := ofSystem (← real.metadata).modified
      return .file { path, octets := octets.toList, ctime := changed, mtime := changed }
  catch _ => return .nothing

/-- What the environment says about settings. -/
def settings : IO (List (String × String)) := do
  let found ← Config.settingNames.mapM fun name => do
    return (← IO.getEnv name).map fun value => (name, value)
  return found.filterMap id

/-- Writes what a command leaves behind. -/
def deliver (outcome : Outcome) : IO UInt32 := do
  if let some (path, text) := outcome.written then IO.FS.writeFile path text
  (← IO.getStdout).putStr outcome.output
  (← IO.getStderr).putStr outcome.errors
  return UInt32.ofNat outcome.exit

/-- Runs a command with the files that it asks for. -/
def perform (command : Command) : IO UInt32 := do
  let vaults ← command.vaultPaths.mapM fun path => return (path, ← placeOf true path)
  let others ← command.paths.mapM fun path => return (path, ← placeOf false path)
  let place (path : String) : Place := ((vaults ++ others).lookup path).getD .nothing
  let set ← settings
  let now ← Std.Time.Timestamp.now
  let surroundings : Surroundings :=
    { setting? := (List.lookup · set)
      place
      now := ofMicros (now.toNanosecondsSinceUnixEpoch.toInt / 1000) }
  match command.checkPaths place with
  | .error e =>
    IO.eprintln e.message
    return 2
  | .ok () =>
    match command.run surroundings with
    | .ok outcome => deliver outcome
    | .error failure =>
      IO.eprintln failure.message
      return 1

end NoteQuery.CommandLine

open NoteQuery.CommandLine in
/-- Runs the command of the command line. -/
def main (args : List String) : IO UInt32 :=
  match Command.ofArguments args with
  | .ok command => perform command
  | .error e => do
    IO.eprintln e.message
    return 2
