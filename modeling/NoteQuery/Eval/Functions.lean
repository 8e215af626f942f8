/-
Functions.

What each function of the library computes from its arguments.  Arguments that are left out
count as null where the function allows it; other counts of arguments are a fault.
-/
import NoteQuery.Eval.Scope
import NoteQuery.Value.Moment

namespace NoteQuery

/-- An expression that waits for the scope in which it is to be evaluated. -/
abbrev Delayed := Scope → Except Failure Value

namespace Library

/-- A wrong count of arguments. -/
def wrongCount {α : Type} : Except Failure α :=
  .error (.fault .argumentCount)

/-- The display form of a value. -/
def displayed (v : Value) : Except Failure String :=
  Failure.ofFault v.display

/-- A single list stands for its elements. -/
def listOrArguments : List Value → List Value
  | [.list items] => items
  | args => args

/-- The numbers that values convert to. -/
def numbers (s : Scope) (vs : List Value) : Except Failure (List Number) :=
  vs.mapM s.number

/-- The sum of the numbers of values. -/
def totalOf (s : Scope) (vs : List Value) : Except Failure Number := do
  Number.sum (← numbers s vs)

/-- Some element equals the value. -/
def anyEqual (strict : Bool) (needle : Value) : List Value → Except Failure Bool
  | [] => .ok false
  | v :: vs => do if ← v.equals strict needle then return true else anyEqual strict needle vs

/-- The part occurs in the text. -/
def textHas (whole part : String) : Bool :=
  Text.occursIn part.toList whole.toList

/-- Escapes the characters that markup gives a meaning. -/
def escapeChar (c : Char) : List Char :=
  match c with
  | '&' => "&amp;".toList
  | '<' => "&lt;".toList
  | '>' => "&gt;".toList
  | '"' => "&quot;".toList
  | '\'' => "&#39;".toList
  | c => [c]

/-- The text with no character that markup gives a meaning. -/
def escaped (s : String) : String :=
  String.ofList (s.toList.flatMap escapeChar)

/-- The pattern with that body; a pattern without flags stands for itself. -/
def patternFrom (body flags : Value) : Except Fault Value :=
  match body, flags with
  | .pattern p, .null => .ok (.pattern p)
  | .pattern p, flags => do return .pattern (← Pattern.create p.body (← flags.display))
  | body, flags => do return .pattern (← Pattern.create (← body.display) (← flags.display))

/-- The duration that a value is or writes. -/
def durationFrom : Value → Except Fault Value
  | .duration d => .ok (.duration d)
  | .string s => (Duration.ofText s).map .duration
  | _ => .error .durationNeedsText

/-- The container holds the value: as a part of a text, an element of a list, or a key. -/
def containerHas (s : Scope) (container needle : Value) : Except Failure Bool :=
  match container with
  | .string text => do return textHas text (← displayed needle)
  | .list items => anyEqual s.strict needle items
  | .mapping _ entries =>
    match needle with
    | .null => .ok false
    | needle => do return Entries.has entries (← displayed needle)
  | _ => .ok false

/-- The mean of the numbers of values; zero for none. -/
def averageOf (s : Scope) (vs : List Value) : Except Failure Number :=
  if vs.isEmpty then .ok 0
  else do
    let total ← totalOf s vs
    total.div (.int vs.length)

/-- The first of the best numbers of values, as `pick` chooses; null for none. -/
def bestOf (pick : Number → List Number → Number) (s : Scope) (vs : List Value) :
    Except Failure Value := do
  match ← numbers s vs with
  | [] => return .null
  | n :: ns => return .number (pick n ns)

/-- Evaluates a choice: only the branch that is taken is evaluated. -/
def chooseFrom (s : Scope) : List Delayed → Except Failure Value
  | condition :: first :: rest => do
    if (← condition s).isTruthy then first s
    else
      match rest with
      | second :: _ => second s
      | [] => return .null
  | _ => .error (.evaluation .tooFewBranches)

/-- A function of one argument, which may be left out. -/
def optional (f : Value → Except Failure Value) : List Value → Except Failure Value
  | [] => f .null
  | [v] => f v
  | _ => wrongCount

/-- What a function computes from evaluated arguments. -/
def FunctionOp.apply (op : FunctionOp) (s : Scope) (args : List Value) :
    Except Failure Value :=
  match op with
  | escapeMarkup => optional (fun v => do return .string (escaped (← displayed v))) args
  | makePattern =>
    match args with
    | [body] => Failure.ofFault (patternFrom body .null)
    | [body, flags] => Failure.ofFault (patternFrom body flags)
    | _ => wrongCount
  | toDate =>
    match args with
    | [v] => Failure.ofFault (v.toTimestamp.map .timestamp)
    | _ => wrongCount
  | toDuration =>
    match args with
    | [v] => Failure.ofFault (durationFrom v)
    | _ => wrongCount
  | now => if args.isEmpty then .ok (.timestamp s.now) else wrongCount
  | today => if args.isEmpty then .ok (.timestamp s.now.startOfDay) else wrongCount
  | toNumber => optional (fun v => (s.number v).map .number) args
  | maximum => bestOf Number.maximum s (listOrArguments args)
  | minimum => bestOf Number.minimum s (listOrArguments args)
  | collect => .ok (.list (listOrArguments args))
  | contains =>
    match args with
    | [container] => (containerHas s container .null).map .bool
    | [container, needle] => (containerHas s container needle).map .bool
    | _ => wrongCount
  | total =>
    optional (fun v => match v with
      | .list items => (totalOf s items).map .number
      | _ => .ok (.int 0)) args
  | average =>
    optional (fun v => match v with
      | .list items => (averageOf s items).map .number
      | _ => .ok (.int 0)) args
  | count =>
    optional (fun v => match v with
      | .list items => .ok (.int items.length)
      | _ => .ok (.int 0)) args
  | choose => .error (.evaluation .tooFewBranches)
  | findFile => optional (fun v => .ok (s.resolveFile v)) args
  | makeLink =>
    match args with
    | [] => .ok (.link "" .null)
    | [path] => do return .link (Path.normalize (← displayed path)) .null
    | [path, display] => do return .link (Path.normalize (← displayed path)) display
    | _ => wrongCount
  | markup => optional (fun v => do return .html (← displayed v)) args
  | picture => optional (fun v => do return .image (← displayed v)) args
  | symbol => optional (fun v => do return .icon (← displayed v)) args

/-- What a function computes from arguments that are still to be evaluated. -/
def FunctionOp.applyLazy (op : FunctionOp) (s : Scope) (args : List Delayed) :
    Except Failure Value :=
  match op with
  | choose => chooseFrom s args
  | op => do op.apply s (← args.mapM (· s))

end Library

end NoteQuery
