/-
Running commands.

A command depends on the environment, on where its paths lead, and on the clock; it ends with an
exit code, writes to both outputs, and may leave a file.  The log goes to the error output.
-/
import NoteQuery.CommandLine.Command
import NoteQuery.CommandLine.Terminal
import NoteQuery.Config
import NoteQuery.Query.Logging
import NoteQuery.Vault.Index

namespace NoteQuery.CommandLine

/-- What a command depends on besides its arguments. -/
structure Surroundings where
  setting? : String → Option String
  place : String → Place
  now : Timestamp

/-- What a command leaves behind: an exit code, both outputs, and a text under a path. -/
structure Outcome where
  exit : Nat
  output : String := ""
  errors : String := ""
  written : Option (String × String) := none
deriving DecidableEq

/-- The first line of every message about a failure. -/
def errorLine (message : String) : String :=
  plainLine ("Error: " ++ message)

/-- Failures that commands report.  Others are faults of the program and end it. -/
def isReported : QueryFailure → Bool
  | .rejected _ | .query _ | .syntaxError _ => true
  | .evaluation _ => false
  | .fault f => [.value, .encoding, .system, .notADirectory, .isADirectory,
      .noSuchFile].contains f.kind

/-! ## Running a query -/

namespace QueryOptions

/-- The filter that several conditions make together. -/
def combined : List String → FilterSpec
  | [] => .always
  | [condition] => .expression condition
  | conditions => .group (some (conditions.map FilterSpec.expression)) none .always

/-- A text unless it is empty. -/
def unlessEmpty (s : Option String) : Option String :=
  s.filter (!·.isEmpty)

/-- The query that is made of filters, columns and sort keys. -/
def ownSpec (o : QueryOptions) : QuerySpec :=
  let columns := if o.columns.isEmpty then none else some o.columns
  { views := [{
      name := (unlessEmpty o.view).getD "default"
      filters := combined o.filters
      sort := o.sort.map SortKey.ofText
      columns
      groupBy := (unlessEmpty o.groupBy).map SortKey.ofText
      limit := o.limit.map fun n => .int n }]
    properties := columns }

/-- The query that is to be run. -/
def spec (o : QueryOptions) (s : Surroundings) : Logged QueryFailure QuerySpec :=
  match o.queryFile, o.queryText with
  | some path, _ => QuerySpec.loadFile path (s.place (Path.tidy path))
  | none, some text => QuerySpec.loadText text (s.place (Path.tidy text))
  | none, none => pure o.ownSpec

/-- The selection of files, each part from the settings unless the options have it. -/
def selected (o : QueryOptions) (config : Config) : Selection where
  includes := if o.selection.includes.isEmpty then config.selection.includes
    else o.selection.includes
  excludes := if o.selection.excludes.isEmpty then config.selection.excludes
    else o.selection.excludes

/-- The result of the query, and its text. -/
def result (o : QueryOptions) (s : Surroundings) (config : Config) :
    Logged QueryFailure (Result × String) := do
  let spec ← o.spec s
  let query ← PreparedQuery.logged spec (o.strict.getD config.strict)
  let index ← (VaultIndex.ofPlace o.vault (s.place (Path.tidy o.vault)) (o.selected config)).adapt
    QueryFailure.fault
  let run : Run := {
    query
    documents := index.documents
    now := s.now
    library := .builtin
    scannedFiles := some index.scannedFiles }
  let result ← run.logged o.view
  let text ← Logged.ofExcept do
    let format ← match o.format with
      | some format => pure format
      | none => (OutputFormat.ofName config.outputFormat : Except Fault _)
    (result.encode format : Except Fault _)
  return (result, text)

/-- The threshold of the log. -/
def threshold (o : QueryOptions) (config : Config) : LogLevel :=
  if o.debug then .debug else (LogLevel.ofName? config.logLevel).getD .warning

/-- What the command leaves behind when it has a result. -/
def finished (o : QueryOptions) (s : Surroundings) (log : String) (result : Result)
    (text : String) : Except QueryFailure Outcome := do
  let d := result.diagnostics
  let told := (if o.debug then d.warnings else []) ++ d.errors
  let errors := log ++ String.join (told.map plainLine)
  let exit := if d.errors.isEmpty then 0 else 1
  match o.out with
  | none => return { exit, output := withoutColours text, errors }
  | some path =>
    let path := Path.tidy path
    Place.checkWritable path (s.place path) (s.place (Path.parent path))
    return { exit, errors, written := some (path, text) }

/-- Runs the query. -/
def run (o : QueryOptions) (s : Surroundings) : Except QueryFailure Outcome :=
  match Config.ofEnvironment s.setting? with
  | .error f => .ok { exit := 1, errors := errorLine f.message }
  | .ok config =>
    let (outcome, log) := (o.result s config).outcome
    let lines := log.text (o.threshold config)
    match outcome with
    | .ok (result, text) => o.finished s lines result text
    | .error failure =>
      if isReported failure then .ok { exit := 1, errors := lines ++ errorLine failure.message }
      else .error failure

end QueryOptions

/-! ## Checking a query document -/

/-- What is told of issues. -/
def issuesText (issues : List String) : String :=
  String.join (issues.map plainLine) ++ "\n" ++ toString issues.length ++ " error(s) found\n"

/-- The line that shows in which order formulas are computed, if there are any.  Only names that
are texts can be shown. -/
def orderLine (names : List Value) : Except Fault String := do
  let texts ← names.mapM fun
    | .string name => .ok name
    | _ => .error .wrongKind
  return if texts.isEmpty then "" else plainLine ("Formula order: " ++ Text.join ", " texts)

/-- What is told of a query without fault. -/
def validText (q : PreparedQuery) : Except Fault String := do
  let view (v : View) : String := plainLine ("  ✓ " ++ v.name ++ " (" ++ v.type ++ ")")
  let order ← orderLine q.formulaOrder
  return "Loaded " ++ toString q.spec.views.length ++ " view(s):\n" ++
    String.join (q.spec.views.map view) ++ order ++ "\nQuery is valid.\n"

/-- Checks a query document. -/
def validate (path : String) (strict : Bool) (s : Surroundings) : Except QueryFailure Outcome :=
  match (QuerySpec.loadFile path (s.place (Path.tidy path))).outcome.1 with
  | .error (.rejected issues) => .ok { exit := 1, output := issuesText issues }
  | .error failure => .error failure
  | .ok spec =>
    match PreparedQuery.ofSpec spec strict with
    | .ok q =>
      match validText q with
      | .ok text => .ok { exit := 0, output := text }
      | .error f => .error (.fault f)
    | .error (.fault f) => .error (.fault f)
    | .error (.evaluation e) => .error (.evaluation e)
    | .error failure =>
      .ok { exit := 1, errors := plainLine ("Compilation failed: " ++ failure.message) }

/-! ## Listing functions -/

open Library in
/-- A function with its parameters; three points stand for any number of arguments, and a
question mark for one that may be left out. -/
def functionLine (f : FunctionEntry) : String :=
  let parameter (p : Parameter) : String :=
    p.name ++ (if p.variadic then "..." else "") ++ (if p.required then "" else "?")
  "  " ++ f.name ++ "(" ++ Text.join ", " (f.parameters.map parameter) ++ ") -> " ++
    f.returnType ++ "  " ++ f.description ++ "\n"

open Library in
/-- The functions of a category by name; nothing for a category without functions. -/
def categoryText (library : Registry) (category : Category) : String :=
  let functions := (library.inCategory category).mergeSort fun f g => f.name ≤ g.name
  if functions.isEmpty then ""
  else category.name ++ ":\n" ++ String.join (functions.map functionLine)

open Library in
/-- The list of all functions. -/
def functionsText (library : Registry) (asJson : Bool) : String :=
  if asJson then Json.indented Json.asciiQuoted 0 library.documentation ++ "\n"
  else String.join (Category.all.map (categoryText library))

/-! ## Commands -/

/-- What is told when help is asked for. -/
def helpText : String :=
  "Commands:\n  query      runs a view of a query over a vault of notes\n" ++
    "  validate   checks a query document\n  functions  lists the functions of the library\n"

/-- Runs a command. -/
def Command.run (s : Surroundings) : Command → Except QueryFailure Outcome
  | .help => .ok { exit := 0, output := helpText }
  | .query options => options.run s
  | .validate path strict => CommandLine.validate path strict s
  | .functions asJson => .ok { exit := 0, output := functionsText .builtin asJson }

/-- The command of a command line, if it is one and its paths lead where it needs them to. -/
def command (args : List String) (place : String → Place) : Except UsageError Command := do
  let command ← Command.ofArguments args
  command.checkPaths place
  return command

end NoteQuery.CommandLine
