/-
Settings.

The environment may set how strict evaluation is, which files are looked at, how much is logged,
and the format of results.  The command line goes before the environment.
-/
import NoteQuery.Text.Blank
import NoteQuery.Text.Case
import NoteQuery.Vault.Glob
import NoteQuery.Fault

namespace NoteQuery

/-- Settings for queries. -/
structure Config where
  strict : Bool
  selection : Selection
  logLevel : String
  outputFormat : String
deriving DecidableEq

namespace Config

/-- The names of settings in the environment. -/
def settingNames : List String :=
  ["BASEQUERY_STRICT", "BASEQUERY_INCLUDE", "BASEQUERY_EXCLUDE", "BASEQUERY_LOG_LEVEL",
    "BASEQUERY_FORMAT"]

/-- All notes of a vault. -/
def defaultIncludes : List String := ["**/*.md"]

/-- What a text says about a switch. -/
def switchOf (text : String) : Except Fault Bool :=
  let word := Text.lower (Text.trim text)
  if ["1", "true", "yes", "on"].contains word then .ok true
  else if ["0", "false", "no", "off"].contains word then .ok false
  else .error (.invalidBoolean (Text.messageQuoted text))

/-- The parts between commas that are not blank. -/
def listOf (text : String) : List String :=
  let parts := (Text.pieces [','] text.toList).map fun cs => String.ofList (Text.trimChars cs)
  parts.filter (!·.isEmpty)

/-- The settings of an environment. -/
def ofEnvironment (setting? : String → Option String) : Except Fault Config := do
  let strict ← match setting? "BASEQUERY_STRICT" with
    | some text => switchOf text
    | none => pure true
  return {
    strict
    selection := {
      includes := ((setting? "BASEQUERY_INCLUDE").map listOf).getD defaultIncludes
      excludes := ((setting? "BASEQUERY_EXCLUDE").map listOf).getD [] }
    logLevel := Text.upper ((setting? "BASEQUERY_LOG_LEVEL").getD "WARNING")
    outputFormat := Text.lower ((setting? "BASEQUERY_FORMAT").getD "json") }

end Config

end NoteQuery
