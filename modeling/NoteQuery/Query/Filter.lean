/-
Filters.

A prepared filter is a tree of expressions.  In a group every part that is there must pass: all
of some, one of some unless there is none, and not another.  What is left of a test is not
looked at once its outcome is certain.
-/
import NoteQuery.Eval.Evaluator
import NoteQuery.Query.Failure
import NoteQuery.Query.Spec

namespace NoteQuery

/-- A prepared filter. -/
inductive Filter where
  | expression (e : Expr)
  | allOf (children : List Filter)
  | anyOf (children : List Filter)
  | negation (child : Filter)

namespace Filter

instance : Inhabited Filter := ⟨allOf []⟩

/-! ## Preparing -/

/-- One filter of several parts; none if there is no part. -/
def join? : List Filter → Option Filter
  | [] => none
  | [part] => some part
  | parts => some (allOf parts)

mutual

/-- The prepared filter; none if everything passes. -/
def ofSpec : FilterSpec → Except QueryFailure (Option Filter)
  | .always => .ok none
  | .expression source => do
    let e ← Expr.parse source
    return some (expression e)
  | .group all any without => do
    let all ← ofOptional all
    let any ← ofOptional any
    let without ← ofSpec without
    return join? ((all.map allOf).toList ++ (any.map anyOf).toList ++ (without.map negation).toList)
  | .unsupported v => do
    v.checkWritable
    throw (.query (.unsupportedFilter v.literal))

/-- The prepared filters of a part that may not be there. -/
def ofOptional : Option (List FilterSpec) → Except QueryFailure (Option (List Filter))
  | none => .ok none
  | some specs => do
    let filters ← ofSpecs specs
    return some filters

/-- The prepared filters, without those that pass everything. -/
def ofSpecs : List FilterSpec → Except QueryFailure (List Filter)
  | [] => .ok []
  | spec :: specs => do
    let filter ← ofSpec spec
    let filters ← ofSpecs specs
    return filter.toList ++ filters

end

/-! ## Passing -/

mutual

/-- The filter passes in a scope. -/
def passes : Filter → Scope → Except Failure Bool
  | expression e, s => e.holds s
  | allOf children, s => allPass children s
  | anyOf [], _ => .ok true
  | anyOf (child :: children), s => anyPasses (child :: children) s
  | negation child, s => (child.passes s).map (!·)

/-- Every filter passes. -/
def allPass : List Filter → Scope → Except Failure Bool
  | [], _ => .ok true
  | child :: children, s => do
    if ← child.passes s then allPass children s else return false

/-- Some filter passes. -/
def anyPasses : List Filter → Scope → Except Failure Bool
  | [], _ => .ok false
  | child :: children, s => do
    if ← child.passes s then return true else anyPasses children s

end

end Filter

end NoteQuery
