/-
Plain data.

Values as data formats can hold them: null, truth values, numbers, texts, lists, and mappings
whose keys are texts.  Everything else becomes its display form.
-/
import NoteQuery.Value.StableKey

namespace NoteQuery

namespace Value

/-! ## Cycles -/

mutual

/-- The value is being collected in, or holds such a value. -/
def holdsLive : Value → Bool
  | mapping live entries => live || entriesHoldLive entries
  | list items => itemsHoldLive items
  | link _ shown => shown.holdsLive
  | _ => false

def itemsHoldLive : List Value → Bool
  | [] => false
  | v :: vs => v.holdsLive || itemsHoldLive vs

def entriesHoldLive : Entries → Bool
  | [] => false
  | (_, v) :: rest => v.holdsLive || entriesHoldLive rest

end

mutual

/-- The value with a cycle for every mapping that is being collected in. -/
def closeCycles : Value → Value
  | mapping live entries => if live then cycle else mapping live (closeEntries entries)
  | list items => list (closeItems items)
  | link path shown => link path shown.closeCycles
  | v => v

def closeItems : List Value → List Value
  | [] => []
  | v :: vs => v.closeCycles :: closeItems vs

def closeEntries : Entries → Entries
  | [] => []
  | (k, v) :: rest => (k, v.closeCycles) :: closeEntries rest

end

mutual

/-- The value with a mapping in all places where a cycle stands for it. -/
def unroll (whole : Value) : Value → Value
  | cycle => whole
  | mapping live entries =>
    if live then mapping live entries else mapping live (unrollEntries whole entries)
  | list items => list (unrollItems whole items)
  | link path shown => link path (unroll whole shown)
  | v => v

def unrollItems (whole : Value) : List Value → List Value
  | [] => []
  | v :: vs => unroll whole v :: unrollItems whole vs

def unrollEntries (whole : Value) : Entries → Entries
  | [] => []
  | (k, v) :: rest => (k, unroll whole v) :: unrollEntries whole rest

end

/-- What is stored in a mapping, as it is taken from there: in one that is being collected in,
cycles stand for the mapping itself. -/
def takenFrom (live : Bool) (entries : Entries) (stored : Value) : Value :=
  if live then unroll (mapping live entries) stored else stored

mutual

/-- The value contains itself somewhere. -/
def hasCycle : Value → Bool
  | cycle => true
  | mapping _ entries => entriesHaveCycle entries
  | list items => itemsHaveCycle items
  | link _ shown => shown.hasCycle
  | _ => false

def itemsHaveCycle : List Value → Bool
  | [] => false
  | v :: vs => v.hasCycle || itemsHaveCycle vs

def entriesHaveCycle : Entries → Bool
  | [] => false
  | (_, v) :: rest => v.hasCycle || entriesHaveCycle rest

end

/-! ## Plain data -/

/-- The elements of a set by their structural keys. -/
def sortKeyed (items : List (List Char × Value)) : List Value :=
  (items.mergeSort fun a b => String.ofList a.1 ≤ String.ofList b.1).map (·.2)

mutual

/-- The value as plain data; cycles in it stand for a whole. -/
def plainWithin : Value → (whole : Value) → Except Fault Value
  | null, _ => .ok null
  | bool b, _ => .ok (bool b)
  | number n, _ => .ok (number n)
  | string s, _ => .ok (string s)
  | list items, whole => do return list (← plainItems items whole)
  | mapping live entries, whole => do
    let whole := if live then mapping live entries else whole
    return object (Entries.ofTexts (← plainEntries entries whole))
  | set items, whole => do
    let keys ← stableItems items
    return list (sortKeyed (keys.zip (← plainItems items whole)))
  | cycle, _ => .error .selfContaining
  | link path text, whole => do return string (← (link path (unroll whole text)).display)
  | v, _ => do return string (← v.display)

def plainItems : List Value → (whole : Value) → Except Fault (List Value)
  | [], _ => .ok []
  | v :: vs, whole => do
    let p ← v.plainWithin whole
    let ps ← plainItems vs whole
    return p :: ps

def plainEntries : Entries → (whole : Value) → Except Fault (List (String × Value))
  | [], _ => .ok []
  | (k, v) :: rest, whole => do
    k.checkWritable
    let p ← v.plainWithin whole
    let ps ← plainEntries rest whole
    return (k.keyText, p) :: ps

end

/-- The value as plain data. -/
def plain (v : Value) : Except Fault Value :=
  v.plainWithin null

end Value

end NoteQuery
