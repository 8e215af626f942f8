/-
The syntax of expressions.

An expression is a tree of literals, names, accesses, operations, calls, lists and objects.  A
literal keeps the text that it was read from.  Whether two expressions are the same is decided
by going through both trees.
-/
import NoteQuery.Value.Basic

namespace NoteQuery

/-- Operators between two operands. -/
inductive BinaryOperator where
  | or | and | equal | unequal | less | lessEqual | greater | greaterEqual
  | add | subtract | multiply | divide | modulo
deriving DecidableEq

namespace BinaryOperator

def symbol : BinaryOperator → String
  | or => "||"
  | and => "&&"
  | equal => "=="
  | unequal => "!="
  | less => "<"
  | lessEqual => "<="
  | greater => ">"
  | greaterEqual => ">="
  | add => "+"
  | subtract => "-"
  | multiply => "*"
  | divide => "/"
  | modulo => "%"

/-- How tightly the operator binds; larger is tighter. -/
def precedence : BinaryOperator → Nat
  | or => 1
  | and => 2
  | equal | unequal => 3
  | less | lessEqual | greater | greaterEqual => 4
  | add | subtract => 5
  | multiply | divide | modulo => 6

/-- Every spelling of an operator. -/
def spellings : List (String × BinaryOperator) := [
  ("||", or), ("or", or), ("&&", and), ("and", and), ("==", equal), ("!=", unequal),
  ("<", less), ("<=", lessEqual), (">", greater), (">=", greaterEqual), ("+", add),
  ("-", subtract), ("*", multiply), ("/", divide), ("%", modulo)]

/-- The operator of that spelling. -/
def ofSpelling? (s : String) : Option BinaryOperator :=
  spellings.lookup s

end BinaryOperator

/-- Operators before one operand. -/
inductive UnaryOperator where
  | not | negate
deriving DecidableEq

namespace UnaryOperator

def symbol : UnaryOperator → String
  | not => "!"
  | negate => "-"

/-- The operator of that spelling. -/
def ofSpelling? (s : String) : Option UnaryOperator :=
  [("!", not), ("not", not), ("-", negate)].lookup s

end UnaryOperator

/-- What a literal stands for. -/
inductive Literal where
  | null
  | bool (b : Bool)
  | number (n : Number)
  | string (s : String)
  | pattern (p : Pattern)
deriving DecidableEq

/-- The value of a literal. -/
def Literal.value : Literal → Value
  | null => .null
  | bool b => .bool b
  | number n => .number n
  | string s => .string s
  | pattern p => .pattern p

/-- An expression. -/
inductive Expr where
  | literal (value : Literal) (raw : String)
  | name (name : String)
  | member (object : Expr) (name : String)
  | index (object position : Expr)
  | binary (operator : BinaryOperator) (left right : Expr)
  | unary (operator : UnaryOperator) (operand : Expr)
  | call (callee : Expr) (arguments : List Expr)
  | list (elements : List Expr)
  | object (pairs : List (String × Expr))

instance : Inhabited Expr := ⟨.name ""⟩

namespace Expr

mutual

/-- Whether two expressions are the same tree. -/
def same : Expr → Expr → Bool
  | literal v raw, literal w raw' => v == w && raw == raw'
  | name s, name t => s == t
  | member d s, member e t => same d e && s == t
  | index d p, index e q => same d e && same p q
  | binary op d p, binary op' e q => op == op' && same d e && same p q
  | unary op d, unary op' e => op == op' && same d e
  | call d ds, call e es => same d e && sameItems ds es
  | list ds, list es => sameItems ds es
  | object ps, object qs => samePairs ps qs
  | _, _ => false

def sameItems : List Expr → List Expr → Bool
  | [], [] => true
  | d :: ds, e :: es => same d e && sameItems ds es
  | _, _ => false

def samePairs : List (String × Expr) → List (String × Expr) → Bool
  | [], [] => true
  | (s, d) :: ps, (t, e) :: qs => s == t && same d e && samePairs ps qs
  | _, _ => false

end

mutual

theorem same_iff : ∀ d e : Expr, same d e = true ↔ d = e
  | literal v raw, e => by cases e <;> simp [same]
  | name s, e => by cases e <;> simp [same]
  | member d s, e => by cases e <;> simp [same, same_iff d]
  | index d p, e => by cases e <;> simp [same, same_iff d, same_iff p]
  | binary op d p, e => by cases e <;> simp [same, same_iff d, same_iff p, and_assoc]
  | unary op d, e => by cases e <;> simp [same, same_iff d]
  | call d ds, e => by cases e <;> simp [same, same_iff d, sameItems_iff ds]
  | list ds, e => by cases e <;> simp [same, sameItems_iff ds]
  | object ps, e => by cases e <;> simp [same, samePairs_iff ps]

theorem sameItems_iff : ∀ ds es : List Expr, sameItems ds es = true ↔ ds = es
  | [], es => by cases es <;> simp [sameItems]
  | d :: ds, es => by cases es <;> simp [sameItems, same_iff d, sameItems_iff ds]

theorem samePairs_iff : ∀ ps qs : List (String × Expr), samePairs ps qs = true ↔ ps = qs
  | [], qs => by cases qs <;> simp [samePairs]
  | (s, d) :: ps, qs => by
    cases qs <;> simp [samePairs, same_iff d, samePairs_iff ps, Prod.ext_iff]

end

instance : DecidableEq Expr := fun d e => decidable_of_iff _ (same_iff d e)

end Expr

end NoteQuery
