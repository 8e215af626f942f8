/-
Numbers.

An integer of any size or a binary number.  Integers are computed exactly; as soon as a
binary number takes part, both operands are rounded to binary numbers, which fails for an
integer beyond their range.  Comparison is exact between the two sorts.
-/
import NoteQuery.Fault
import NoteQuery.Number.Shortest

namespace NoteQuery

/-- An integer or a binary number; the two are told apart even where they are equal. -/
inductive Number where
  | int (n : Int)
  | float (x : Binary64)
deriving DecidableEq

namespace Number

instance : Inhabited Number := ⟨.int 0⟩

instance (n : Nat) : OfNat Number n := ⟨.int n⟩

/-- The nearest binary number, if the integer is in range. -/
def toFloat : Number → Except Fault Binary64
  | .int n =>
    let x := Binary64.ofInt n
    if x.isFinite then .ok x else .error .integerTooLarge
  | .float x => .ok x

/-- Computes on integers exactly and on everything else in binary numbers. -/
def combine (exact : Int → Int → Int) (rounded : Binary64 → Binary64 → Binary64) :
    Number → Number → Except Fault Number
  | .int m, .int n => .ok (.int (exact m n))
  | x, y => do
    let a ← x.toFloat
    let b ← y.toFloat
    return .float (rounded a b)

def add : Number → Number → Except Fault Number :=
  combine (· + ·) Binary64.add

def sub : Number → Number → Except Fault Number :=
  combine (· - ·) Binary64.sub

def mul : Number → Number → Except Fault Number :=
  combine (· * ·) Binary64.mul

/-- The quotient is always a binary number; the divisor is not zero. -/
def div : Number → Number → Except Fault Number
  | .int m, .int n =>
    let q := Binary64.ofRatio (decide (m < 0) != decide (n < 0)) m.natAbs n.natAbs
    if q.isFinite then .ok (.float q) else .error .quotientTooLarge
  | x, y => do
    let a ← x.toFloat
    let b ← y.toFloat
    return .float (a.div b)

/-- An infinity, or no number, has no integer part. -/
def integerPart (direction : Binary64.Direction) (x : Binary64) : Except Fault Int :=
  match x.toInt? direction with
  | some n => .ok n
  | none => .error (if x.isNan then .nanAsInteger else .infinityAsInteger)

/-- The remainder with the sign of the dividend, computed in binary numbers; of two integers
it is an integer again. -/
def rem (x y : Number) : Except Fault Number := do
  let a ← x.toFloat
  let b ← y.toFloat
  let r := a.rem b
  if r.isNan && !a.isNan && !b.isNan then throw .noRemainder
  match x, y with
  | .int _, .int _ => return .int (← integerPart .towardZero r)
  | _, _ => return .float r

def neg : Number → Number
  | .int n => .int (-n)
  | .float x => .float x.neg

def abs : Number → Number
  | .int n => .int n.natAbs
  | .float x => .float x.abs

/-- The integer next to the number in the direction. -/
def toInteger (direction : Binary64.Direction) : Number → Except Fault Int
  | .int n => .ok n
  | .float x => integerPart direction x

def trunc : Number → Except Fault Int :=
  toInteger .towardZero

def floor : Number → Except Fault Int :=
  toInteger .down

def ceil : Number → Except Fault Int :=
  toInteger .up

/-- Neither infinite nor no number; asked of an integer only within the binary range. -/
def isFinite : Number → Except Fault Bool
  | .int n => (Number.int n).toFloat.map fun _ => true
  | .float x => .ok x.isFinite

def isNan : Number → Bool
  | .int _ => false
  | .float x => x.isNan

def isZero : Number → Bool
  | .int n => n == 0
  | .float x => x.isZero

/-! ## Order -/

/-- An integer against a binary number, without rounding. -/
def compareIntFloat? (n : Int) : Binary64 → Option Ordering
  | .nan => none
  | .infinite s => some (if s then .gt else .lt)
  | .finite s m e _ =>
    let (num, den) := Binary64.onGrid m 1 (-e)
    some (compare (n * den) (Binary64.signed s num))

/-- How two numbers compare; not at all when one is none. -/
def compare? : Number → Number → Option Ordering
  | .int m, .int n => some (compare m n)
  | .int m, .float y => compareIntFloat? m y
  | .float x, .int n => (compareIntFloat? n x).map Ordering.swap
  | .float x, .float y => x.compare? y

/-- The numbers are equal, whatever their sorts. -/
def same (x y : Number) : Bool :=
  x.compare? y == some .eq

def lt (x y : Number) : Bool :=
  x.compare? y == some .lt

/-- Less, equal or greater; neither when there is no order. -/
def order (x y : Number) : Ordering :=
  (x.compare? y).getD .eq

/-- The first of the largest numbers. -/
def maximum : Number → List Number → Number
  | best, [] => best
  | best, x :: xs => maximum (if best.lt x then x else best) xs

/-- The first of the smallest numbers. -/
def minimum : Number → List Number → Number
  | best, [] => best
  | best, x :: xs => minimum (if x.lt best then x else best) xs

/-- The sum from the left, starting with the integer zero. -/
def sum (xs : List Number) : Except Fault Number :=
  xs.foldlM add (.int 0)

/-! ## Texts -/

/-- The decimal digits of an integer. -/
def integerText (n : Int) : List Char :=
  if n < 0 then '-' :: Nat.toDigits 10 n.natAbs else Nat.toDigits 10 n.natAbs

/-- The text of a number as data: a binary number keeps its point. -/
def literal : Number → String
  | .int n => String.ofList (integerText n)
  | .float x => x.literal

/-- The number can be written: an integer has at most 4300 digits. -/
def isWritable : Number → Bool
  | .int n => (integerText n.natAbs).length ≤ 4300
  | .float _ => true

/-- The text of a number for readers: a binary number without a fraction looks like an
integer. -/
def display : Number → String
  | .int n => String.ofList (integerText n)
  | .float x =>
    match x with
    | .nan => "NaN"
    | .infinite s => if s then "-Infinity" else "Infinity"
    | .finite .. =>
      if x.isInteger then String.ofList (integerText ((x.toInt? .towardZero).getD 0))
      else x.literal

end Number

end NoteQuery
