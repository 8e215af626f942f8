/-
Binary floating point with 53 bits.

A finite number is a sign, an integer below 2⁵³ and a power of two, in the one form that
`Canonical` allows, so two finite numbers are the same exactly when their parts are.  Every
operation computes the exact quotient of integers and rounds it once, to the nearest number
and on a tie to the even one; no machine arithmetic is used.
-/
import NoteQuery.Number.Power

namespace NoteQuery

/-- `mant * 2 ^ exp` is written with the least exponent that keeps `mant` below 2⁵³ and the
exponent at or above -1074. -/
def Binary64.Canonical (mant : Nat) (exp : Int) : Prop :=
  mant < pow2 53 ∧ -1074 ≤ exp ∧ exp ≤ 971 ∧ (pow2 52 ≤ mant ∨ exp = -1074)

instance (mant : Nat) (exp : Int) : Decidable (Binary64.Canonical mant exp) :=
  inferInstanceAs (Decidable (_ ∧ _))

/-- A number of 53 binary digits: not a number, an infinity, or finite. -/
inductive Binary64 where
  | nan
  | infinite (negative : Bool)
  | finite (negative : Bool) (mant : Nat) (exp : Int) (canonical : Binary64.Canonical mant exp)
deriving DecidableEq

namespace Binary64

theorem canonical_zero : Canonical 0 (-1074) := by decide

/-- Zero of either sign. -/
def zero (negative : Bool) : Binary64 :=
  .finite negative 0 (-1074) canonical_zero

instance : Inhabited Binary64 := ⟨zero false⟩

/-! ## Rounding -/

/-- The integer nearest to a quotient, on a tie the even one. -/
def nearest (num den : Nat) : Nat :=
  let q := num / den
  let r := num % den
  if 2 * r < den then q
  else if den < 2 * r then q + 1
  else if q % 2 = 0 then q else q + 1

/-- The quotient `num / (den * 2 ^ exp)` as a quotient of integers. -/
def onGrid (num den : Nat) (exp : Int) : Nat × Nat :=
  if 0 ≤ exp then (num, den * pow2 exp.toNat) else (num * pow2 (-exp).toNat, den)

/-- The exponent of the grid on which a positive quotient has 53 bits, or the least one. -/
def gridExponent (num den : Nat) : Int :=
  let e : Int := num.log2 - den.log2 - 53
  let (n, d) := onGrid num den e
  max (if n / d < pow2 53 then e else e + 1) (-1074)

/-- The number of that sign, integer and exponent; infinite where the exponent is too large. -/
def pack (negative : Bool) (mant : Nat) (exp : Int) : Binary64 :=
  let (m, e) := if mant = pow2 53 then (pow2 52, exp + 1) else (mant, exp)
  if h : Canonical m e then .finite negative m e h else .infinite negative

/-- The number nearest to `num / den`. -/
def ofRatio (negative : Bool) (num den : Nat) : Binary64 :=
  if num = 0 then zero negative
  else
    let e := gridExponent num den
    let (n, d) := onGrid num den e
    pack negative (nearest n d) e

/-- The number nearest to `mant * 2 ^ exp`. -/
def ofDyadic (negative : Bool) (mant : Nat) (exp : Int) : Binary64 :=
  let (n, d) := onGrid mant 1 (-exp)
  ofRatio negative n d

/-- The number nearest to an integer. -/
def ofInt (n : Int) : Binary64 :=
  ofRatio (n < 0) n.natAbs 1

/-- The number nearest to a quotient of integers with a positive divisor. -/
def ofIntRatio (num : Int) (den : Nat) : Binary64 :=
  ofRatio (num < 0) num.natAbs den

/-! ## Classes and signs -/

def isNan : Binary64 → Bool
  | .nan => true
  | _ => false

def isFinite : Binary64 → Bool
  | .finite .. => true
  | _ => false

def isZero : Binary64 → Bool
  | .finite _ 0 _ _ => true
  | _ => false

/-- The sign bit; a number that is none has no sign. -/
def negative : Binary64 → Bool
  | .nan => false
  | .infinite s => s
  | .finite s _ _ _ => s

/-- The number with the sign set. -/
def withSign (s : Bool) : Binary64 → Binary64
  | .nan => .nan
  | .infinite _ => .infinite s
  | .finite _ m e h => .finite s m e h

def neg (x : Binary64) : Binary64 :=
  x.withSign !x.negative

def abs (x : Binary64) : Binary64 :=
  x.withSign false

/-- The integer with a sign. -/
def signed (negative : Bool) (n : Nat) : Int :=
  if negative then -n else n

/-! ## Arithmetic -/

/-- `n` when its grid has exponent `from`, on the finer grid with exponent `to`. -/
def refine (n : Nat) (coarse fine : Int) : Nat :=
  n * pow2 (coarse - fine).toNat

def add : Binary64 → Binary64 → Binary64
  | .nan, _ | _, .nan => .nan
  | .infinite s, .infinite t => if s = t then .infinite s else .nan
  | .infinite s, .finite .. | .finite .., .infinite s => .infinite s
  | .finite s m d _, .finite t n e _ =>
    let fine := min d e
    let sum := signed s (refine m d fine) + signed t (refine n e fine)
    if sum = 0 then zero (s && t) else ofDyadic (sum < 0) sum.natAbs fine

def sub (x y : Binary64) : Binary64 :=
  x.add y.neg

def mul : Binary64 → Binary64 → Binary64
  | .nan, _ | _, .nan => .nan
  | .infinite s, .infinite t => .infinite (s != t)
  | .infinite s, .finite t m _ _ | .finite s m _ _, .infinite t =>
    if m = 0 then .nan else .infinite (s != t)
  | .finite s m d _, .finite t n e _ => ofDyadic (s != t) (m * n) (d + e)

/-- The quotient; a zero divisor gives an infinity, or no number for zero over zero. -/
def div : Binary64 → Binary64 → Binary64
  | .nan, _ | _, .nan => .nan
  | .infinite _, .infinite _ => .nan
  | .infinite s, .finite t _ _ _ => .infinite (s != t)
  | .finite s _ _ _, .infinite t => zero (s != t)
  | .finite s m d _, .finite t n e _ =>
    if n = 0 then if m = 0 then .nan else .infinite (s != t)
    else
      let (num, den) := onGrid m n (e - d)
      ofRatio (s != t) num den

/-- What is left of the first number after taking away the second as often as it fits; it has
the first number's sign.  There is none when the first is infinite or the second zero. -/
def rem : Binary64 → Binary64 → Binary64
  | .nan, _ | _, .nan => .nan
  | .infinite _, _ => .nan
  | x, .infinite _ => x
  | .finite s m d _, .finite _ n e _ =>
    if n = 0 then .nan
    else
      let fine := min d e
      ofDyadic s (refine m d fine % refine n e fine) fine

/-! ## Order -/

/-- How two numbers compare; not at all when one is none. -/
def compare? : Binary64 → Binary64 → Option Ordering
  | .nan, _ | _, .nan => none
  | .infinite s, .infinite t => some (compare t.toNat s.toNat)
  | .infinite s, .finite .. => some (if s then .lt else .gt)
  | .finite .., .infinite t => some (if t then .gt else .lt)
  | .finite s m d _, .finite t n e _ =>
    let fine := min d e
    some (compare (signed s (refine m d fine)) (signed t (refine n e fine)))

/-! ## Integers -/

/-- How a magnitude between two integers is moved to one of them. -/
inductive Direction where
  | towardZero | down | up | toEven
deriving DecidableEq

/-- The integer next to `num / den` in the direction. -/
def Direction.apply (direction : Direction) (negative : Bool) (num den : Nat) : Nat :=
  let ceiling := num / den + if num % den = 0 then 0 else 1
  match direction with
  | .towardZero => num / den
  | .down => if negative then ceiling else num / den
  | .up => if negative then num / den else ceiling
  | .toEven => nearest num den

/-- The integer next to a finite number in the direction. -/
def toInt? (direction : Direction) : Binary64 → Option Int
  | .finite s m e _ =>
    let (num, den) := onGrid m 1 (-e)
    some (signed s (direction.apply s num den))
  | _ => none

/-- A finite number without a fraction. -/
def isInteger : Binary64 → Bool
  | .finite _ m e _ =>
    let (num, den) := onGrid m 1 (-e)
    num % den = 0
  | _ => false

/-- The fraction that is left when a finite number is cut to an integer, with its sign. -/
def fraction : Binary64 → Binary64
  | .finite s m e _ =>
    if 0 ≤ e then zero s else ofDyadic s (m % pow2 (-e).toNat) e
  | x => x

/-! ## Decimals -/

/-- The number nearest to `digits * 10 ^ exp`.  Beyond four hundred places the answer is an
infinity or zero, whatever the digits. -/
def ofDecimal (negative : Bool) (digits : Nat) (exp : Int) : Binary64 :=
  let places : Int := (Nat.toDigits 10 digits).length
  if digits = 0 then zero negative
  else if 400 < exp + places then .infinite negative
  else if exp + places < -400 then zero negative
  else if 0 ≤ exp then ofRatio negative (digits * pow10 exp.toNat) 1
  else ofRatio negative digits (pow10 (-exp).toNat)

end Binary64

end NoteQuery
