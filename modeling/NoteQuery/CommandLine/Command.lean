/-
Commands.

Three commands: run a view of a query over a vault, check a query document, and list the
functions of the library.
-/
import NoteQuery.CommandLine.Arguments
import NoteQuery.Number.Reading
import NoteQuery.Output.Encoding
import NoteQuery.Query.Spec
import NoteQuery.Vault.Glob
import NoteQuery.Vault.Place

namespace NoteQuery.CommandLine

/-- How a query is to be run: where it comes from, over which files, and what becomes of the
result.  Without a source the query is made of filters, columns and sort keys. -/
structure QueryOptions where
  vault : String
  queryFile : Option String
  queryText : Option String
  view : Option String
  format : Option OutputFormat
  out : Option String
  strict : Option Bool
  selection : Selection
  filters : List String
  columns : List String
  sort : List String
  groupBy : Option String
  limit : Option Nat
  debug : Bool

/-- A command. -/
inductive Command where
  | help
  | query (options : QueryOptions)
  | validate (path : String) (strict : Bool)
  | functions (asJson : Bool)

namespace Command

/-- The options of the command that runs a query. -/
def queryOption? (name : String) : Option OptionForm :=
  if ["--help", "--debug", "--strict", "--no-strict"].contains name then some .switch
  else if ["--dir", "--base", "--yaml", "--view", "--format", "--out", "--include", "--exclude",
    "--filter", "--select", "--sort", "--group-by", "--limit"].contains name then some .valued
  else none

/-- The options of the command that checks a query document. -/
def validateOption? (name : String) : Option OptionForm :=
  if ["--help", "--strict", "--no-strict"].contains name then some .switch else none

/-- The options of the command that lists functions. -/
def functionsOption? (name : String) : Option OptionForm :=
  if ["--help", "--json"].contains name then some .switch else none

/-- The options in front of a command. -/
def groupOption? (name : String) : Option OptionForm :=
  if name = "--help" then some .switch else none

/-- Nothing but options was given. -/
def noOperands (a : Arguments) : Except UsageError Unit :=
  match a.operands with
  | [] => .ok ()
  | operand :: _ => .error (.extraOperand operand)

/-- The value of an option, read by `f`. -/
def valueBy {α : Type} (a : Arguments) (name : String) (f : String → Option α) :
    Except UsageError (Option α) :=
  match a.value? name with
  | none => .ok none
  | some value =>
    match f value with
    | some x => .ok (some x)
    | none => .error (.invalidValue name value)

/-- An integer that is not negative. -/
def limit? (value : String) : Option Nat :=
  (Number.integer? value.toList).bind fun n => if n < 0 then none else some n.toNat

/-- The command that runs a query. -/
def ofQueryArguments (a : Arguments) : Except UsageError Command := do
  let format ← valueBy a "--format" fun name => (OutputFormat.ofName name).toOption
  let limit ← valueBy a "--limit" limit?
  noOperands a
  return query {
    vault := (a.value? "--dir").getD "."
    queryFile := a.value? "--base"
    queryText := a.value? "--yaml"
    view := a.value? "--view"
    format
    out := a.value? "--out"
    strict := a.switch? "--strict" "--no-strict"
    selection := ⟨a.values "--include", a.values "--exclude"⟩
    filters := a.values "--filter"
    columns := a.values "--select"
    sort := a.values "--sort"
    groupBy := a.value? "--group-by"
    limit
    debug := a.has "--debug" }

/-- The command that checks a query document. -/
def ofValidateArguments (a : Arguments) : Except UsageError Command :=
  match a.operands with
  | [] => .error (.noOperand "a path")
  | [path] => .ok (validate path ((a.switch? "--strict" "--no-strict").getD true))
  | _ :: operand :: _ => .error (.extraOperand operand)

/-- The command that lists functions. -/
def ofFunctionsArguments (a : Arguments) : Except UsageError Command := do
  noOperands a
  return functions (a.has "--json")

/-- A command by its name, with the arguments behind it.  Asking for help goes before whatever
else the options say. -/
def ofName (name : String) (args : List String) : Except UsageError Command := do
  let (form?, make) ← match name with
    | "query" => pure (queryOption?, ofQueryArguments)
    | "validate" => pure (validateOption?, ofValidateArguments)
    | "functions" => pure (functionsOption?, ofFunctionsArguments)
    | name => throw (.unknownCommand name)
  let a ← Arguments.read form? true args
  if a.has "--help" then return help else make a

/-- The command of a command line. -/
def ofArguments (args : List String) : Except UsageError Command := do
  let a ← Arguments.read groupOption? false args
  if a.has "--help" then return help
  match a.operands with
  | [] => throw .noCommand
  | name :: args => ofName name args

/-! ## Paths -/

/-- The directory whose files a command looks at. -/
def vaultPaths : Command → List String
  | query options => [options.vault, Path.tidy options.vault]
  | _ => []

/-- The other paths that a command asks for. -/
def paths : Command → List String
  | query options =>
    let read := options.queryFile.toList ++ options.queryText.toList
    let written := options.out.toList.flatMap fun path => [path, Path.parent path]
    read ++ written ++ (read ++ written).map Path.tidy
  | validate path _ => [path, Path.tidy path]
  | _ => []

/-- Every path of a command can lead where the command needs it to. -/
def checkPaths (place : String → Place) (command : Command) : Except UsageError Unit :=
  let check (path : String) (fits : Place → Bool) : Except UsageError Unit :=
    if fits (place path) then .ok () else .error (.invalidPath path)
  match command with
  | query options => do
    check options.vault (!·.isFile)
    options.queryFile.forM fun path => check path Place.isFile
    options.out.forM fun path => check path (!·.isDirectory)
  | validate path _ => check path Place.isFile
  | _ => .ok ()

end Command

end NoteQuery.CommandLine
