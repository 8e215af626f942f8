/-
Reading expressions.

Binary operators are read by precedence climbing: an operand takes the operators that bind at
least as tightly as asked, and the right operand of each takes the tighter ones only, so that
equal operators group to the left.  Everything above them is read by descent.  Each function
counts `fuel` down; the count of tokens bounds what is needed.
-/
import NoteQuery.Expr.Syntax
import NoteQuery.Expr.Token
import NoteQuery.Number.Reading

namespace NoteQuery

/-- Why an expression could not be read: it is none, or a numeral or a pattern in it is beyond
what can be read. -/
inductive ReadFailure where
  | syntaxError (e : SyntaxError)
  | fault (f : Fault)
deriving DecidableEq

/-- The wording of a failure. -/
def ReadFailure.message : ReadFailure → String
  | syntaxError e => e.message
  | fault f => f.message

namespace Expr

/-- What is read, and the tokens that follow. -/
abbrev Parse (α : Type) := List Token → Except ReadFailure (α × List Token)

/-- The next token. -/
def current (ts : List Token) : Token :=
  ts.headD ⟨.eof, "", "", 0⟩

/-- Fails at a token. -/
def failAt {α : Type} (t : Token) (cause : SyntaxCause) : Except ReadFailure α :=
  .error (.syntaxError ⟨cause, t.first⟩)

/-- Fails at the next token. -/
def failHere {α : Type} (cause : SyntaxCause) (ts : List Token) : Except ReadFailure α :=
  failAt (current ts) cause

/-- Fails because no expression starts with the next token. -/
def failUnexpected {α : Type} (ts : List Token) : Except ReadFailure α :=
  let t := current ts
  failAt t (if t.kind = .eof then .unexpectedEnd else .unexpectedToken t.text)

/-- Takes a punctuation mark. -/
def expectMark (mark : String) (behind : String) (ts : List Token) :
    Except ReadFailure (List Token) :=
  if (current ts).isPunctuation mark then .ok ts.tail
  else failHere (.expected mark behind) ts

/-- The binary operator that comes next. -/
def binaryOperator? (ts : List Token) : Option BinaryOperator :=
  let t := current ts
  if t.kind = .operator then BinaryOperator.ofSpelling? t.text else none

/-- The unary operator that comes next. -/
def unaryOperator? (ts : List Token) : Option UnaryOperator :=
  let t := current ts
  if t.kind = .operator then UnaryOperator.ofSpelling? t.text else none

/-- The body and the flags of a pattern between slashes. -/
def patternParts (text : String) : String × String :=
  match Text.cutLast? '/' text.toList with
  | some (front, flags) => (String.ofList (front.drop 1), String.ofList flags)
  | none => (text, "")

/-- The pattern that a token writes. -/
def patternOf (t : Token) : Except ReadFailure Pattern :=
  let (body, flags) := patternParts t.text
  match Pattern.create body flags with
  | .ok p => .ok p
  | .error f =>
    if f.kind = .value then failAt t (.badPattern f.message) else .error (.fault f)

/-- Words that stand for a value. -/
def keyword? (word : String) : Option Literal :=
  [("true", Literal.bool true), ("false", .bool false), ("null", .null)].lookup word

/-- The expression that a single token writes, if it does. -/
def ofToken? (t : Token) : Except ReadFailure (Option Expr) :=
  match t.kind with
  | .number =>
    match Number.ofNumeral t.text.toList with
    | .ok n => .ok (some (.literal (.number n) t.raw))
    | .error f => .error (.fault f)
  | .string => .ok (some (.literal (.string t.text) t.raw))
  | .pattern => (patternOf t).map fun p => some (.literal (.pattern p) t.raw)
  | .identifier =>
    match keyword? t.text with
    | some value => .ok (some (.literal value t.raw))
    | none => .ok (some (.name t.text))
  | _ => .ok none

mutual

/-- An expression whose operators bind at least as tightly as `least`. -/
def parseBinary : (fuel least : Nat) → Parse Expr
  | 0, _, ts => failUnexpected ts
  | fuel + 1, least, ts => do
    let (left, ts) ← parseUnary fuel ts
    parseOperators fuel least left ts

/-- Further operators and right operands behind a left operand. -/
def parseOperators : (fuel least : Nat) → Expr → Parse Expr
  | 0, _, _, ts => failUnexpected ts
  | fuel + 1, least, left, ts =>
    match binaryOperator? ts with
    | none => .ok (left, ts)
    | some op =>
      if op.precedence < least then .ok (left, ts)
      else do
        let (right, ts) ← parseBinary fuel (op.precedence + 1) ts.tail
        parseOperators fuel least (.binary op left right) ts

/-- Unary operators before an operand. -/
def parseUnary : (fuel : Nat) → Parse Expr
  | 0, ts => failUnexpected ts
  | fuel + 1, ts =>
    match unaryOperator? ts with
    | some op => do
      let (operand, ts) ← parseUnary fuel ts.tail
      return (.unary op operand, ts)
    | none => do
      let (base, ts) ← parsePrimary fuel ts
      parsePostfix fuel base ts

/-- Accesses and calls behind a base. -/
def parsePostfix : (fuel : Nat) → Expr → Parse Expr
  | 0, _, ts => failUnexpected ts
  | fuel + 1, base, ts =>
    let t := current ts
    if t.isPunctuation "." then
      let m := current ts.tail
      if m.kind = .identifier then parsePostfix fuel (.member base m.text) ts.tail.tail
      else failAt m .expectedMember
    else if t.isPunctuation "[" then do
      let (position, ts) ← parseBinary fuel 1 ts.tail
      let ts ← expectMark "]" "index" ts
      parsePostfix fuel (.index base position) ts
    else if t.isPunctuation "(" then do
      let (arguments, ts) ← parseItems fuel ")" ts.tail
      let ts ← expectMark ")" "arguments" ts
      parsePostfix fuel (.call base arguments) ts
    else .ok (base, ts)

/-- A literal, a name, or something between brackets. -/
def parsePrimary : (fuel : Nat) → Parse Expr
  | 0, ts => failUnexpected ts
  | fuel + 1, ts => do
    let t := current ts
    match ← ofToken? t with
    | some e => return (e, ts.tail)
    | none =>
      if t.isPunctuation "(" then
        let (e, ts) ← parseBinary fuel 1 ts.tail
        let ts ← expectMark ")" "expression" ts
        return (e, ts)
      else if t.isPunctuation "[" then
        let (elements, ts) ← parseItems fuel "]" ts.tail
        let ts ← expectMark "]" "list elements" ts
        return (.list elements, ts)
      else if t.isPunctuation "\x7b" then
        let (pairs, ts) ← parsePairs fuel ts.tail
        let ts ← expectMark "\x7d" "object" ts
        return (.object pairs, ts)
      else failUnexpected ts

/-- Expressions with commas between them; none right before the closing mark. -/
def parseItems : (fuel : Nat) → (closer : String) → Parse (List Expr)
  | 0, _, ts => failUnexpected ts
  | fuel + 1, closer, ts =>
    if (current ts).isPunctuation closer then .ok ([], ts) else parseMoreItems fuel ts

/-- One or more expressions with commas between them. -/
def parseMoreItems : (fuel : Nat) → Parse (List Expr)
  | 0, ts => failUnexpected ts
  | fuel + 1, ts => do
    let (item, ts) ← parseBinary fuel 1 ts
    if (current ts).isPunctuation "," then
      let (items, ts) ← parseMoreItems fuel ts.tail
      return (item :: items, ts)
    else return ([item], ts)

/-- Pairs with commas between them; none right before the closing brace. -/
def parsePairs : (fuel : Nat) → Parse (List (String × Expr))
  | 0, ts => failUnexpected ts
  | fuel + 1, ts =>
    if (current ts).isPunctuation "\x7d" then .ok ([], ts) else parseMorePairs fuel ts

/-- One or more pairs with commas between them. -/
def parseMorePairs : (fuel : Nat) → Parse (List (String × Expr))
  | 0, ts => failUnexpected ts
  | fuel + 1, ts => do
    let key := current ts
    if key.kind != .string && key.kind != .identifier then failAt key .expectedKey
    let ts ← expectMark ":" "object key" ts.tail
    let (value, ts) ← parseBinary fuel 1 ts
    if (current ts).isPunctuation "," then
      let (pairs, ts) ← parseMorePairs fuel ts.tail
      return ((key.text, value) :: pairs, ts)
    else return ([(key.text, value)], ts)

end

/-- Steps that are enough to read so many tokens. -/
def fuelFor (tokens : List Token) : Nat :=
  8 * tokens.length + 8

/-- The expression that all the tokens write. -/
def ofTokens (tokens : List Token) : Except ReadFailure Expr := do
  if (current tokens).kind = .eof then failHere .emptyExpression tokens
  let (e, rest) ← parseBinary (fuelFor tokens) 1 tokens
  let t := current rest
  if t.kind = .eof then return e else failAt t (.unexpectedToken t.text)

/-- The expression that a source text writes. -/
def parse (source : String) : Except ReadFailure Expr :=
  match tokenize source with
  | .ok tokens => ofTokens tokens
  | .error e => .error (.syntaxError e)

end Expr

end NoteQuery
