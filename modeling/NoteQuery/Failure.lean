/-
Failures of evaluation.

An expression fails for a reason of its own, or because something below it went wrong in a way
that nobody caught.
-/
import NoteQuery.Value.Display

namespace NoteQuery

/-- Why an expression has no value. -/
inductive EvalError where
  /-- A value, as it is displayed, that is no number. -/
  | notANumber (display : String)
  /-- A name that stands for nothing. -/
  | unknownIdentifier (name : String)
  /-- A member of null. -/
  | memberOfNull (name : String)
  /-- A member that timestamps lack. -/
  | unknownDateMember (name : String)
  /-- A member that files lack. -/
  | unknownFileMember (name : String)
  /-- A member of a kind of value that has none of this name. -/
  | noMember (name : String) (kind : Kind)
  /-- An index into a kind of value that has no parts. -/
  | noIndex (kind : Kind)
  | divisionByZero
  | moduloByZero
  /-- Arithmetic beyond the numbers or the calendar. -/
  | arithmetic (cause : Fault)
  /-- A call of something other than a name or a member. -/
  | notCallable
  | unknownFunction (name : String)
  | unknownMethod (name : String) (kind : Kind)
  /-- A call that went wrong. -/
  | call (name : String) (cause : Fault)
  /-- A choice without a condition or a first branch. -/
  | tooFewBranches
deriving DecidableEq

/-- The wording of an evaluation error. -/
def EvalError.message : EvalError → String
  | notANumber display => "Cannot convert value to number: " ++ display
  | unknownIdentifier name => "Unknown identifier: " ++ name
  | memberOfNull name => "Cannot access property '" ++ name ++ "' on null"
  | unknownDateMember name => "Unknown date property: " ++ name
  | unknownFileMember name => "Unknown file property: " ++ name
  | noMember name kind => "Cannot access property '" ++ name ++ "' on " ++ kind.name ++ " value"
  | noIndex kind => "Cannot index " ++ kind.name ++ " value"
  | divisionByZero => "Division by zero"
  | moduloByZero => "Modulo by zero"
  | arithmetic cause => "Invalid arithmetic: " ++ cause.message
  | notCallable => "Expression is not callable"
  | unknownFunction name => "Unknown function: " ++ name
  | unknownMethod name kind => "Unknown method: " ++ name ++ " on " ++ kind.name ++ " value"
  | call name cause => "Error calling " ++ name ++ ": " ++ cause.message
  | tooFewBranches => "if() expects at least 2 arguments"

/-- A failed evaluation: an error of the expression, or a fault that escaped. -/
inductive Failure where
  | evaluation (e : EvalError)
  | fault (f : Fault)
deriving DecidableEq

namespace Failure

/-- The outcome of a computation below evaluation. -/
def ofFault {α : Type} : Except Fault α → Except Failure α
  | .ok a => .ok a
  | .error f => .error (.fault f)

instance : MonadLift (Except Fault) (Except Failure) := ⟨ofFault⟩

/-- The wording of a failure. -/
def message : Failure → String
  | evaluation e => e.message
  | fault f => f.message

end Failure

end NoteQuery
