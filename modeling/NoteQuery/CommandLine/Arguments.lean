/-
Arguments.

Options start with a hyphen and have a name and perhaps a value, which follows the name or stands
behind an equals sign in it.  What is no option is an operand; behind two hyphens everything is.
-/
namespace NoteQuery.CommandLine

/-- Why arguments are no command. -/
inductive UsageError where
  | noCommand
  | unknownCommand (name : String)
  | unknownOption (name : String)
  | noValue (option : String)
  | unexpectedValue (option : String)
  | invalidValue (option value : String)
  | noOperand (operand : String)
  | extraOperand (value : String)
  /-- A path that leads to something else than the command needs. -/
  | invalidPath (path : String)
deriving DecidableEq

/-- The wording of a usage error. -/
def UsageError.message : UsageError → String
  | noCommand => "a command is needed"
  | unknownCommand name => "there is no command " ++ name
  | unknownOption name => "there is no option " ++ name
  | noValue option => "the option " ++ option ++ " needs a value"
  | unexpectedValue option => "the option " ++ option ++ " takes no value"
  | invalidValue option value => "the option " ++ option ++ " cannot be " ++ value
  | noOperand operand => operand ++ " is needed"
  | extraOperand value => "nothing is to be done with " ++ value
  | invalidPath path => "the path " ++ path ++ " cannot be used here"

/-- What an option takes. -/
inductive OptionForm where
  | switch
  | valued
deriving DecidableEq

/-- An option that was given; switches have no value. -/
structure Setting where
  name : String
  value : Option String
deriving DecidableEq

/-- Options and operands in the order in which they were given. -/
structure Arguments where
  settings : List Setting := []
  operands : List String := []
deriving DecidableEq

namespace Arguments

def addSetting (name : String) (value : Option String) (a : Arguments) : Arguments :=
  { a with settings := ⟨name, value⟩ :: a.settings }

def addOperand (operand : String) (a : Arguments) : Arguments :=
  { a with operands := operand :: a.operands }

/-- An option and the value that stands in it. -/
def cutOption (arg : String) : String × Option String :=
  let name := arg.toList.takeWhile (· != '=')
  match arg.toList.drop name.length with
  | [] => (arg, none)
  | _ :: value => (String.ofList name, some (String.ofList value))

/-- The argument is an option: it has a hyphen in front and more behind. -/
def isOption (arg : String) : Bool :=
  match arg.toList with
  | '-' :: _ :: _ => true
  | _ => false

/-- Reads arguments.  `form?` knows the options.  Operands may stand among the options, or, if
they are not `mixed`, the first one ends them. -/
def read (form? : String → Option OptionForm) (mixed : Bool) :
    List String → Except UsageError Arguments
  | [] => .ok {}
  | arg :: args =>
    if arg = "--" then .ok { operands := args }
    else if !isOption arg then
      if mixed then (read form? mixed args).map (addOperand arg)
      else .ok { operands := arg :: args }
    else
      let (name, given) := cutOption arg
      match form? name, given, args with
      | none, _, _ => .error (.unknownOption name)
      | some .switch, some _, _ => .error (.unexpectedValue name)
      | some .switch, none, args => (read form? mixed args).map (addSetting name none)
      | some .valued, some value, args =>
        (read form? mixed args).map (addSetting name (some value))
      | some .valued, none, value :: args =>
        (read form? mixed args).map (addSetting name (some value))
      | some .valued, none, [] => .error (.noValue name)
termination_by args => args.length

/-- The values given for an option. -/
def values (a : Arguments) (name : String) : List String :=
  a.settings.filterMap fun s => if s.name = name then s.value else none

/-- The value given last for an option. -/
def value? (a : Arguments) (name : String) : Option String :=
  (a.values name).getLast?

/-- The option was given. -/
def has (a : Arguments) (name : String) : Bool :=
  a.settings.any (·.name == name)

/-- Which of two opposite switches was given last. -/
def switch? (a : Arguments) (on off : String) : Option Bool :=
  ((a.settings.filter fun s => s.name == on || s.name == off).getLast?).map (·.name == on)

end Arguments

end NoteQuery.CommandLine
