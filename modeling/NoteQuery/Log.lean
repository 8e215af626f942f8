/-
Logs.

What a program tells about its work: entries with a weight and a source.  A logged computation
keeps the entries that it has written even if it fails.
-/
namespace NoteQuery

/-- Weights of entries, and thresholds for them. -/
inductive LogLevel where
  | all | debug | info | warning | error | critical
deriving DecidableEq

namespace LogLevel

def weight : LogLevel → Nat
  | all => 0
  | debug => 1
  | info => 2
  | warning => 3
  | error => 4
  | critical => 5

def name : LogLevel → String
  | all => "NOTSET"
  | debug => "DEBUG"
  | info => "INFO"
  | warning => "WARNING"
  | error => "ERROR"
  | critical => "CRITICAL"

/-- The level of a name; some have two. -/
def ofName? (name : String) : Option LogLevel :=
  if name = "WARN" then some warning
  else if name = "FATAL" then some critical
  else [all, debug, info, warning, error, critical].find? (·.name == name)

end LogLevel

/-- What writes entries. -/
inductive LogSource where
  | notes | vault | documents | preparation | run
deriving DecidableEq

/-- The name under which entries show their source. -/
def LogSource.name : LogSource → String
  | notes => "basequery.vault.markdown"
  | vault => "basequery.vault.index"
  | documents => "basequery.query.schema"
  | preparation => "basequery.query.compiler"
  | run => "basequery.query.executor"

/-- An entry of a log. -/
structure LogEntry where
  level : LogLevel
  source : LogSource
  message : String
deriving DecidableEq

/-- The entry as a line. -/
def LogEntry.line (e : LogEntry) : String :=
  e.level.name ++ " " ++ e.source.name ++ ": " ++ e.message ++ "\n"

/-- Entries in the order in which they were written. -/
abbrev Log := List LogEntry

/-- The lines of the entries that reach a threshold. -/
def Log.text (log : Log) (threshold : LogLevel) : String :=
  String.join ((log.filter fun e => threshold.weight ≤ e.level.weight).map LogEntry.line)

/-- A computation that writes a log and may fail. -/
abbrev Logged (ε : Type) := ExceptT ε (StateM Log)

namespace Logged

variable {ε α : Type}

/-- Writes an entry. -/
def note (level : LogLevel) (source : LogSource) (message : String) : Logged ε Unit :=
  modify (· ++ [⟨level, source, message⟩])

/-- The outcome of a computation that writes nothing. -/
def ofExcept (outcome : Except ε α) : Logged ε α :=
  ExceptT.mk (pure outcome)

/-- The outcome and the log. -/
def outcome (c : Logged ε α) : Except ε α × Log :=
  (ExceptT.run c).run []

end Logged

end NoteQuery
