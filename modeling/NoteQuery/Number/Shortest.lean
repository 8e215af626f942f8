/-
The shortest decimal of a binary number.

Among the decimals that round to a given number, those with the fewest digits are looked for,
and of these the one nearest to the number.  The search goes through the grids of one, two,
… seventeen digits and tests the number's two neighbours on each; everything is a comparison
of integers.
-/
import NoteQuery.Number.Binary64

namespace NoteQuery.Binary64

/-- The number of decimal digits. -/
def digitCount (n : Nat) : Nat :=
  (Nat.toDigits 10 n).length

/-- The exponent of the first digit of a positive quotient. -/
def leadingExponent (num den : Nat) : Int :=
  if den ≤ num then (digitCount (num / den) : Int) - 1
  else
    let l := digitCount (den / num)
    if den ≤ num * pow10 (l - 1) then 1 - (l : Int) else -(l : Int)

/-- The reals that round to a magnitude, in quarters of its last place. -/
structure Basin where
  low : Nat
  high : Nat
  closed : Bool

/-- Halfway to the neighbours; below a power of two the neighbour is nearer.  The ends belong
to an even magnitude. -/
def basin (mant : Nat) (exp : Int) : Basin where
  low := if mant = pow2 52 && -1074 < exp then 4 * mant - 1 else 4 * mant - 2
  high := 4 * mant + 2
  closed := mant % 2 == 0

/-- `d * 10 ^ k` against `n * 2 ^ e`. -/
def compareScaled (d : Nat) (k : Int) (n : Nat) (e : Int) : Ordering :=
  compare (d * pow10 k.toNat * pow2 (-e).toNat) (n * pow2 e.toNat * pow10 (-k).toNat)

/-- The decimal rounds to the magnitude whose basin is given. -/
def Basin.holds (b : Basin) (exp : Int) (d : Nat) (k : Int) : Bool :=
  let above := compareScaled d k b.low (exp - 2)
  let below := compareScaled d k b.high (exp - 2)
  (above == .gt || b.closed && above == .eq) && (below == .lt || b.closed && below == .eq)

/-- The neighbour of the magnitude on the grid `10 ^ k` that rounds to it, the nearer of two. -/
def onDecimalGrid? (mant : Nat) (exp k : Int) : Option Nat :=
  match onGrid mant 1 (-exp) with
  | (num, den) =>
    let d := num * pow10 (-k).toNat / (den * pow10 k.toNat)
    let b := basin mant exp
    match b.holds exp d k, b.holds exp (d + 1) k with
    | true, false => some d
    | false, true => some (d + 1)
    | false, false => none
    | true, true =>
      match compareScaled (2 * d + 1) k (2 * mant) exp with
      | .lt => some (d + 1)
      | .gt => some d
      | .eq => some (if d % 2 = 0 then d else d + 1)

/-- Tries the grids of `count`, `count + 1`, … digits. -/
def shortestFrom (mant : Nat) (exp lead : Int) : (fuel count : Nat) → Nat × Int
  | 0, _ => (mant, 0)
  | fuel + 1, count =>
    let k := lead + 1 - count
    match onDecimalGrid? mant exp k with
    | some d => (d, k)
    | none => shortestFrom mant exp lead fuel (count + 1)

/-- Drops the zeros at the end of a positive number of tens, hundreds, … -/
def dropZeros : (fuel : Nat) → Nat × Int → Nat × Int
  | 0, p => p
  | fuel + 1, (d, k) => if d % 10 = 0 && 0 < d then dropZeros fuel (d / 10, k + 1) else (d, k)

/-- The digits and the decimal exponent of the shortest decimal that rounds to a positive
magnitude. -/
def shortest (mant : Nat) (exp : Int) : Nat × Int :=
  match onGrid mant 1 (-exp) with
  | (num, den) => dropZeros 20 (shortestFrom mant exp (leadingExponent num den) 17 1)

/-! ## Written forms -/

/-- The digits with the point after the first `point` places. -/
def positional (digits : List Char) (point : Int) : List Char :=
  if point ≤ 0 then '0' :: '.' :: List.replicate (-point).toNat '0' ++ digits
  else if digits.length ≤ point.toNat then
    digits ++ List.replicate (point.toNat - digits.length) '0' ++ ['.', '0']
  else digits.take point.toNat ++ '.' :: digits.drop point.toNat

/-- The digits with a power of ten that has a sign and two places at least. -/
def scientific (digits : List Char) (exp : Int) : List Char :=
  let fractionPart := match digits.drop 1 with
    | [] => []
    | rest => '.' :: rest
  let power := Nat.toDigits 10 exp.natAbs
  digits.take 1 ++ fractionPart ++ 'e' :: (if exp < 0 then '-' else '+') ::
    (if power.length < 2 then '0' :: power else power)

/-- The shortest text that reads back: positional from 0.0001 to below 10¹⁶, with a fraction
part always; `nan` and `inf` otherwise. -/
def literal : Binary64 → String
  | .nan => "nan"
  | .infinite s => if s then "-inf" else "inf"
  | .finite s m e _ =>
    let body :=
      if m = 0 then ['0', '.', '0']
      else
        let (d, k) := shortest m e
        let digits := Nat.toDigits 10 d
        let point := digits.length + k
        if -3 ≤ point && point ≤ 16 then positional digits point
        else scientific digits (point - 1)
    String.ofList (if s then '-' :: body else body)

/-- The text with exactly `places` digits after the point, the last one rounded to the nearest
and on a tie to the even one. -/
def fixed (places : Nat) : Binary64 → String
  | .nan => "nan"
  | .infinite s => if s then "-inf" else "inf"
  | .finite s m e _ =>
    let (num, den) := onGrid m 1 (-e)
    let scaled := nearest (num * pow10 places) den
    let digits := Nat.toDigits 10 scaled
    let digits := List.replicate (places + 1 - digits.length) '0' ++ digits
    let whole := digits.length - places
    let body := digits.take whole ++ if places = 0 then [] else '.' :: digits.drop whole
    String.ofList (if s then '-' :: body else body)

end NoteQuery.Binary64
