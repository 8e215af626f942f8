/-
The order of formulas.

A formula refers to others by `formula.` and their names, which is looked for in the text of the
formula.  Formulas are computed after all to which they refer, otherwise in the order of their
names; formulas that refer to each other in a circle have no order.
-/
import NoteQuery.Query.Failure
import NoteQuery.Query.Spec
import NoteQuery.Sorting
import NoteQuery.Text.Word

namespace NoteQuery.FormulaOrder

/-! ## References -/

/-- What stands before the name in a reference. -/
def referenceLead : List Char := "formula.".toList

def isNameStart (c : Char) : Bool :=
  c.isAlpha || c == '_'

def isNamePart (c : Char) : Bool :=
  c.isAlphanum || c == '_'

/-- The name in a reference that starts here; the name ends where the word does. -/
def reference? (cs : List Char) : Option (List Char) :=
  if referenceLead.isPrefixOf cs then
    let rest := cs.drop referenceLead.length
    let name := rest.takeWhile isNamePart
    let ends := ((rest.drop name.length).head?.map Text.isWord).getD false
    if (name.head?.map isNameStart).getD false && !ends then some name else none
  else none

/-- The names in references from left to right.  `covered` characters still belong to the
reference found last; `inWord` tells whether a word goes on here. -/
def referencesFrom (covered : Nat) (inWord : Bool) : List Char → List (List Char)
  | [] => []
  | c :: cs =>
    match covered with
    | covered + 1 => referencesFrom covered (Text.isWord c) cs
    | 0 =>
      match if inWord then none else reference? (c :: cs) with
      | some name =>
        name :: referencesFrom (referenceLead.length + name.length - 1) (Text.isWord c) cs
      | none => referencesFrom 0 (Text.isWord c) cs

/-- The names of the formulas to which a text refers, each once. -/
def references (source : String) : List String :=
  ((referencesFrom 0 false source.toList).map String.ofList).eraseDups

/-! ## Names -/

/-- Octets in order, place by place. -/
def octetsBefore : List UInt8 → List UInt8 → Bool
  | [], ys => !ys.isEmpty
  | _ :: _, [] => false
  | x :: xs, y :: ys => if x = y then octetsBefore xs ys else x < y

/-- The first name comes before the second; only names of one sort have an order. -/
def nameBefore (v w : Value) : Except Fault Bool :=
  match v, w with
  | .string s, .string t => .ok (s < t)
  | .date d, .date e => .ok (d.ordinal < e.ordinal)
  | .timestamp t, .timestamp u =>
    if t.zone.isSome = u.zone.isSome then .ok (t.instant < u.instant) else .error .wrongKind
  | .bytes b, .bytes c => .ok (octetsBefore b c)
  | v, w =>
    match v.keyNumber?, w.keyNumber? with
    | some m, some n => .ok (m.lt n)
    | _, _ => .error .wrongKind

/-! ## Order -/

/-- The names to which each name refers. -/
abbrev References := Keyed (List Value)

/-- Puts a name behind `done`, after all to which it refers.  `path` are the names that refer to
it, one through the other. -/
def visit (refs : References) :
    (fuel : Nat) → (path : List Value) → (name : Value) → (done : List Value) →
      Except QueryError (List Value)
  | 0, _, name, _ => .error (.formulaCycle name.keyText)
  | fuel + 1, path, name, done =>
    if done.any (·.sameKey name) then .ok done
    else if path.any (·.sameKey name) then .error (.formulaCycle name.keyText)
    else do
      let done ← ((refs.find? name).getD []).foldlM
        (fun done other => visit refs fuel (name :: path) other done) done
      return done ++ [name]

/-- The names in order of computation, from the names in order of sorting. -/
def arrange (refs : References) (names : List Value) : Except QueryError (List Value) :=
  names.foldlM (fun done name => visit refs (names.length + 1) [] name done) []

/-- The declared names to which each formula refers. -/
def declaredReferences (formulas : Keyed String) : References :=
  formulas.map fun (name, source) =>
    (name, ((references source).map Value.string).filter fun other =>
      (formulas.find? other).isSome)

/-- The names of formulas in the order of computation. -/
def order (formulas : Keyed String) : Except QueryFailure (List Value) := do
  let names : List Value ← (Sorting.sort nameBefore formulas.keys : Except Fault _)
  arrange (declaredReferences formulas) names

end NoteQuery.FormulaOrder
