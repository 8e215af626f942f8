/-
Evaluation.

The value of an expression in a scope, by recursion on the expression.  The operators `&&` and
`||` give the operand that decides.  Arithmetic that leaves the numbers or the calendar, and
whatever goes wrong within a call, becomes an error of the expression.
-/
import NoteQuery.Eval.Methods
import NoteQuery.Expr.Parser

namespace NoteQuery

/-! ## Members and elements -/

/-- The number of seconds, minutes, … of a timestamp by name. -/
def Timestamp.field? (t : Timestamp) (name : String) : Option Nat :=
  [("year", t.date.year), ("month", t.date.month), ("day", t.date.day), ("hour", t.hour),
    ("minute", t.minute), ("second", t.second), ("millisecond", t.millisecond)].lookup name

namespace Scope

/-- A named member of a value. -/
def member (s : Scope) (v : Value) (name : String) : Except Failure Value :=
  match v.moment? with
  | some t =>
    match t.field? name with
    | some n => .ok (.int n)
    | none => s.fail (.unknownDateMember name)
  | none =>
    match v with
    | .null => s.fail (.memberOfNull name)
    | .file r =>
      match r.field? name with
      | some v => .ok v
      | none => s.fail (.unknownFileMember name)
    | .link path display =>
      if name = "path" then .ok (.string path)
      else if name = "display" then .ok display
      else s.fail (.noMember name .link)
    | .string t =>
      if name = "length" then .ok (.int t.length) else s.fail (.noMember name .string)
    | .list items => if name = "length" then .ok (.int items.length) else .ok .null
    | .mapping live entries =>
      .ok (Value.takenFrom live entries ((Entries.get? entries name).getD .null))
    | v => s.fail (.noMember name v.kind)

/-- The element of a list at the place that a number gives. -/
def elementAt (items : List Value) (n : Number) : Except Fault Value := do
  if ← n.isFinite then
    let i ← n.trunc
    return if i < 0 then .null else items.getD i.toNat .null
  else return .null

/-- The key that a value is as an index, if it is a text or a number. -/
def indexKey? : Value → Except Fault (Option String)
  | .string t => .ok (some t)
  | .number n => (Value.number n).display.map some
  | _ => .ok none

/-- The part of a value under a key, if there is one.  Only mappings and files have such parts. -/
def partAt (s : Scope) (v : Value) (key : Option String) : Except Failure Value :=
  match v, key with
  | .mapping live entries, some key =>
    .ok (Value.takenFrom live entries ((Entries.get? entries key).getD .null))
  | .file r, some key => .ok ((r.field? key).getD .null)
  | v, _ => s.fail (.noIndex v.kind)

/-- A part of a value by index. -/
def element (s : Scope) (v index : Value) : Except Failure Value :=
  match v with
  | .list items => do
    let n ← s.number index
    Failure.ofFault (elementAt items n)
  | v => do
    let key ← Failure.ofFault (indexKey? index)
    s.partAt v key

/-! ## Arithmetic -/

/-- The duration that a value is or writes. -/
def durationOf? : Value → Option Duration
  | .duration d => some d
  | .string t => Duration.ofText? t
  | _ => none

/-- A duration added to a timestamp, or taken from it. -/
def moved (t : Timestamp) (d : Duration) (sign : Int) : Except Failure Value :=
  Failure.ofFault ((t.apply d sign).map .timestamp)

/-- A timestamp moved by milliseconds. -/
def shifted (t : Timestamp) (n : Number) : Except Failure Value :=
  Failure.ofFault ((t.shiftMillis n).map .timestamp)

/-- An operation on the numbers that two values convert to. -/
def compute (s : Scope) (op : Number → Number → Except Fault Number) (v w : Value) :
    Except Failure Value := do
  let m ← s.number v
  let n ← s.number w
  return .number (← Failure.ofFault (op m n))

/-- A value is a text. -/
def isText : Value → Bool
  | .string _ => true
  | _ => false

/-- The sum of two values of which no timestamp is moved. -/
def addPlain (s : Scope) (v w : Value) : Except Failure Value :=
  match v, w with
  | .duration d, .duration e => .ok (.duration (d.append e))
  | v, w =>
    if isText v || isText w then Failure.ofFault do
      return .string ((← v.display) ++ (← w.display))
    else s.compute Number.add v w

/-- The sum with a timestamp on the right, if a duration stands on the left. -/
def addRight (s : Scope) (v w : Value) : Except Failure Value :=
  match w.moment?, durationOf? v with
  | some t, some d => moved t d 1
  | _, _ => s.addPlain v w

/-- The sum. -/
def add (s : Scope) (v w : Value) : Except Failure Value :=
  match v.moment? with
  | none => s.addRight v w
  | some t =>
    match durationOf? w, w with
    | some d, _ => moved t d 1
    | none, .number n => shifted t n
    | none, w => s.addRight v w

/-- The difference. -/
def subtract (s : Scope) (v w : Value) : Except Failure Value :=
  match v.moment?, w.moment? with
  | some t, some u => Failure.ofFault do return .int ((← t.epochMillis) - (← u.epochMillis))
  | some t, none =>
    match durationOf? w, w with
    | some d, _ => moved t d (-1)
    | none, .number n => shifted t n.neg
    | none, w => s.compute Number.sub v w
  | none, _ =>
    match v, w with
    | .duration d, .duration e => Failure.ofFault do
      return .number (← (← d.toMillis).sub (← e.toMillis))
    | v, w => s.compute Number.sub v w

/-- The product; a duration is multiplied part by part. -/
def multiply (s : Scope) (v w : Value) : Except Failure Value :=
  match v, w with
  | .duration d, .number n => Failure.ofFault ((d.scaled n).map .duration)
  | .number n, .duration d => Failure.ofFault ((d.scaled n).map .duration)
  | v, w => s.compute Number.mul v w

/-- The quotient; a duration is divided part by part. -/
def divide (s : Scope) (v w : Value) : Except Failure Value := do
  let divisor ← s.number w
  if divisor.isZero then s.fail .divisionByZero
  else
    match v, w with
    | .duration d, .number _ => Failure.ofFault do
      return .duration (← d.scaled (← (Number.int 1).div divisor))
    | v, _ => do
      let dividend ← s.number v
      return .number (← Failure.ofFault (dividend.div divisor))

/-- The remainder, which has the sign of the dividend. -/
def modulo (s : Scope) (v w : Value) : Except Failure Value := do
  let dividend ← s.number v
  let divisor ← s.number w
  if divisor.isZero then s.fail .moduloByZero
  else return .number (← Failure.ofFault (dividend.rem divisor))

/-- Numbers out of range and impossible values are errors of the arithmetic. -/
def guardArithmetic (r : Except Failure Value) : Except Failure Value :=
  match r with
  | .error (.fault f) =>
    if f.kind = .value ∨ f.kind = .overflow then .error (.evaluation (.arithmetic f)) else r
  | r => r

/-- A comparison as a truth value. -/
def compared (s : Scope) (v w : Value) (holds : Ordering → Bool) : Except Failure Value := do
  return .bool (holds (← Value.compare s.strict v w))

/-- An operator whose operands are both evaluated. -/
def operate (s : Scope) (op : BinaryOperator) (v w : Value) : Except Failure Value :=
  match op with
  | .or => .ok (if v.isTruthy then v else w)
  | .and => .ok (if v.isTruthy then w else v)
  | .equal => do return .bool (← v.equals s.strict w)
  | .unequal => do return .bool (!(← v.equals s.strict w))
  | .less => s.compared v w (· == .lt)
  | .lessEqual => s.compared v w (· != .gt)
  | .greater => s.compared v w (· == .gt)
  | .greaterEqual => s.compared v w (· != .lt)
  | .add => guardArithmetic (s.add v w)
  | .subtract => guardArithmetic (s.subtract v w)
  | .multiply => guardArithmetic (s.multiply v w)
  | .divide => guardArithmetic (s.divide v w)
  | .modulo => guardArithmetic (s.modulo v w)

/-- An operator with one operand. -/
def operateUnary (s : Scope) (op : UnaryOperator) (v : Value) : Except Failure Value :=
  match op with
  | .not => .ok (.bool !v.isTruthy)
  | .negate => do return .number (← s.number v).neg

/-! ## Calls -/

/-- A fault within a call is an error of the call. -/
def guardCall (name : String) (r : Except Failure Value) : Except Failure Value :=
  match r with
  | .error (.fault f) => .error (.evaluation (.call name f))
  | r => r

/-- Calls a function. -/
def callFunction (s : Scope) (name : String) (args : List Delayed) : Except Failure Value :=
  match s.library.function? name with
  | none => s.fail (.unknownFunction name)
  | some entry =>
    if entry.op.isLazy then guardCall name (entry.op.applyLazy s args)
    else do
      let args ← args.mapM (· s)
      guardCall name (entry.op.apply s args)

/-- Calls a method of a value. -/
def callMethod (s : Scope) (target : Value) (name : String) (args : List Delayed) :
    Except Failure Value :=
  match s.library.method? (some target.kind) name with
  | none => s.fail (.unknownMethod name target.kind)
  | some entry =>
    if entry.op.isLazy then guardCall name (entry.op.applyLazy s target args)
    else do
      let args ← args.mapM (· s)
      guardCall name (entry.op.apply s target args)

end Scope

/-! ## Expressions -/

namespace Expr

mutual

/-- The value of an expression in a scope. -/
def eval : Expr → Scope → Except Failure Value
  | literal v _, _ => .ok v.value
  | name n, s => s.resolve n
  | member base field, s => do
    let v ← base.eval s
    s.member v field
  | index base position, s => do
    let v ← base.eval s
    let i ← position.eval s
    s.element v i
  | binary .or left right, s => do
    let v ← left.eval s
    if v.isTruthy then return v else right.eval s
  | binary .and left right, s => do
    let v ← left.eval s
    if v.isTruthy then right.eval s else return v
  | binary op left right, s => do
    let v ← left.eval s
    let w ← right.eval s
    s.operate op v w
  | unary op operand, s => do
    let v ← operand.eval s
    s.operateUnary op v
  | call (.name f) arguments, s => s.callFunction f (delayed arguments)
  | call (.member base method) arguments, s => do
    let target ← base.eval s
    s.callMethod target method (delayed arguments)
  | call _ _, s => s.fail .notCallable
  | list elements, s => do return .list (← evalItems elements s)
  | object pairs, s => do return .object (Entries.ofTexts (← evalPairs pairs s))

def evalItems : List Expr → Scope → Except Failure (List Value)
  | [], _ => .ok []
  | e :: es, s => do
    let v ← e.eval s
    let vs ← evalItems es s
    return v :: vs

def evalPairs : List (String × Expr) → Scope → Except Failure (List (String × Value))
  | [], _ => .ok []
  | (k, e) :: rest, s => do
    let v ← e.eval s
    let vs ← evalPairs rest s
    return (k, v) :: vs

/-- Arguments that wait for their scope. -/
def delayed : List Expr → List Delayed
  | [] => []
  | e :: es => (fun s => e.eval s) :: delayed es

end

/-- The truth of an expression in a scope. -/
def holds (e : Expr) (s : Scope) : Except Failure Bool :=
  (e.eval s).map Value.isTruthy

end Expr

end NoteQuery
