/-
Summaries.

A summary makes one value of the values of a column.  Numeric summaries pass over what is no
finite number, blank texts among it; moments count as epoch milliseconds there.
-/
import NoteQuery.Number.Reading
import NoteQuery.Value.StableKey

namespace NoteQuery

/-- The summaries that every query has. -/
inductive Summary where
  | count | sum | average | least | greatest | median | deviation | range | earliest | latest
  | checked | unchecked | empty | filled | unique
deriving DecidableEq

namespace Summary

/-- Summaries by name. -/
def table : List (String × Summary) := [
  ("average", average), ("avg", average), ("checked", checked), ("count", count),
  ("earliest", earliest), ("empty", empty), ("filled", filled), ("latest", latest),
  ("max", greatest), ("median", median), ("min", least), ("range", range),
  ("stddev", deviation), ("sum", sum), ("unchecked", unchecked), ("unique", unique)]

/-- All names, in order. -/
def names : List String :=
  table.map (·.1)

/-- The summary of a name, whatever its case. -/
def ofName? (name : String) : Option Summary :=
  table.lookup (Text.lower (Text.trim name))

/-! ## Numbers -/

/-- The finite number that a text writes; none in a blank one. -/
def numberOfText? (s : String) : Option Number :=
  match Binary64.ofChars? s.toList with
  | some x => if x.isFinite then some (.float x) else none
  | none => none

/-- The number as which a value counts. -/
def numberOf? : Value → Except Fault (Option Number)
  | .date d => (Timestamp.midnight d).epochMillis.map fun n => some (.int n)
  | .timestamp t => t.epochMillis.map fun n => some (.int n)
  | .bool b => .ok (some (.int (if b then 1 else 0)))
  | .number n => n.isFinite.map fun finite => if finite then some n else none
  | .string s => .ok (numberOfText? s)
  | _ => .ok none

/-- The numbers among the values. -/
def numbers (values : List Value) : Except Fault (List Number) := do
  return (← values.mapM numberOf?).filterMap id

/-- The middle number, or halfway between the two in the middle. -/
def medianOf (ns : List Number) : Except Fault Number :=
  let sorted := ns.mergeSort fun m n => !n.lt m
  let middle := sorted.length / 2
  let upper := sorted.getD middle 0
  if sorted.length % 2 = 1 then .ok upper
  else do (← (sorted.getD (middle - 1) 0).add upper).div (.int 2)

/-- The integer part of a square root. -/
def squareRoot : (fuel : Nat) → Nat → Nat
  | 0, _ => 0
  | fuel + 1, n =>
    if n = 0 then 0
    else
      let r := 2 * squareRoot fuel (n / 4)
      if (r + 1) * (r + 1) ≤ n then r + 1 else r

/-- The square root of a quotient as an integer, made odd where it is not exact. -/
def oddSquareRoot (num den : Nat) : Nat :=
  let r := squareRoot (num.log2 + 1) (num / den)
  if r * r * den = num || r % 2 = 1 then r else r + 1

/-- The number of binary digits. -/
def bitLength (n : Nat) : Nat :=
  if n = 0 then 0 else n.log2 + 1

/-- The binary number nearest to the square root of a quotient. -/
def rootOfRatio (num den : Nat) : Except Fault Number :=
  let shift := ((bitLength num : Int) - bitLength den - 109).fdiv 2
  let x :=
    if 0 ≤ shift then
      let s := shift.toNat
      Binary64.ofRatio false (oddSquareRoot num (den * pow2 (2 * s)) * pow2 s) 1
    else
      let s := (-shift).toNat
      Binary64.ofRatio false (oddSquareRoot (num * pow2 (2 * s)) den) (pow2 s)
  if x.isFinite then .ok (.float x) else .error .quotientTooLarge

/-- The power of two by which a number becomes an integer. -/
def scaleOf : Number → Nat
  | .int _ => 0
  | .float (.finite _ _ e _) => (-e).toNat
  | .float _ => 0

/-- A finite number times a power of two that makes it an integer. -/
def scaled (scale : Nat) : Number → Int
  | .int n => n * pow2 scale
  | .float (.finite s m e _) => Binary64.signed s (m * pow2 (scale + e).toNat)
  | .float _ => 0

/-- The deviation from the mean, computed exactly and rounded once. -/
def deviationOf (ns : List Number) : Except Fault Number :=
  let scale := (ns.map scaleOf).foldl max 0
  let xs := ns.map (scaled scale)
  let total := xs.foldl (· + ·) 0
  let squares := (xs.map fun x => x * x).foldl (· + ·) 0
  let spread : Int := xs.length * squares - total * total
  rootOfRatio spread.toNat (xs.length * xs.length * pow2 (2 * scale))

/-! ## Moments -/

/-- All values as moments, if every value is one and there is one at all. -/
def moments? (values : List Value) : Option (List Timestamp) :=
  if values.isEmpty then none else values.mapM Value.moment?

/-- The first of the moments that come before no other, where `before` may fail. -/
def firstBy (before : Timestamp → Timestamp → Except Fault Bool) :
    Timestamp → List Timestamp → Except Fault Timestamp
  | best, [] => .ok best
  | best, t :: ts => do
    if ← before t best then firstBy before t ts else firstBy before best ts

/-- The first moment comes before the second; moments with and without zone have no order. -/
def isBefore (t u : Timestamp) : Except Fault Bool :=
  if t.zone.isSome = u.zone.isSome then .ok (t.instant < u.instant) else .error .zonesMixed

/-- The milliseconds between the ends of the moments. -/
def spanOf (t : Timestamp) (ts : List Timestamp) : Except Fault Value := do
  let last ← firstBy (fun t u => isBefore u t) t ts
  let first ← firstBy isBefore t ts
  return .int ((← last.epochMillis) - (← first.epochMillis))

/-- The first of the moments with the least key. -/
def leastBy (keyBefore : Int → Int → Bool) (ts : List Timestamp) :
    Except Fault (Option Timestamp) := do
  let keyed ← ts.mapM fun t => do return (← t.epochMillis, t)
  return (keyed.foldl (fun best k =>
    match best with
    | none => some k
    | some b => if keyBefore k.1 b.1 then some k else best) none).map (·.2)

/-- The moment that a key chooses among all values, null unless all are moments. -/
def momentBy (keyBefore : Int → Int → Bool) (values : List Value) : Except Fault Value :=
  match moments? values with
  | none => .ok .null
  | some ts => (leastBy keyBefore ts).map fun t => (t.map Value.timestamp).getD .null

/-! ## Summaries of columns -/

/-- The value is null or the empty text. -/
def isBlank : Value → Bool
  | .null => true
  | .string s => s.isEmpty
  | _ => false

/-- How many values pass a test. -/
def countOf (p : Value → Bool) (values : List Value) : Value :=
  .int (values.countP p)

/-- A summary of the numbers among the values, null if there is none. -/
def ofNumbers (f : Number → List Number → Except Fault Number) (values : List Value) :
    Except Fault Value := do
  match ← numbers values with
  | [] => return .null
  | n :: ns => return .number (← f n ns)

/-- The value that a summary makes of the values of a column. -/
def apply (s : Summary) (values : List Value) : Except Fault Value :=
  match s with
  | count => .ok (.int values.length)
  | sum => do return .number (← Number.sum (← numbers values))
  | average => do
    let ns ← numbers values
    if ns.isEmpty then return .int 0
    return .number (← (← Number.sum ns).div (.int ns.length))
  | least => ofNumbers (fun n ns => .ok (.minimum n ns)) values
  | greatest => ofNumbers (fun n ns => .ok (.maximum n ns)) values
  | median => ofNumbers (fun n ns => medianOf (n :: ns)) values
  | deviation => ofNumbers (fun n ns => deviationOf (n :: ns)) values
  | range =>
    match moments? values with
    | some (t :: ts) => spanOf t ts
    | _ => ofNumbers (fun n ns => (Number.maximum n ns).sub (.minimum n ns)) values
  | earliest => momentBy (· < ·) values
  | latest => momentBy (fun m n => n < m) values
  | checked => .ok (countOf (fun v => v matches .bool true) values)
  | unchecked => .ok (countOf (fun v => v matches .bool false) values)
  | empty => .ok (countOf isBlank values)
  | filled => .ok (countOf (fun v => !isBlank v) values)
  | unique => do
    let keys ← values.mapM Value.stableKey
    return .int keys.eraseDups.length

end Summary

end NoteQuery
