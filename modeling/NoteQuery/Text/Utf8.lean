/-
Reading octets as UTF-8 text.

The reader keeps the ranges in which the octets still owed must lie.  An octet outside its
range ends the broken sequence, which counts as one unreadable place, and is read again as a
first octet.
-/
import NoteQuery.Text.Quoted

namespace NoteQuery.Text

/-- The value bits of a first octet and the ranges of the octets that it calls for. -/
def firstOctet? (b : Nat) : Option (Nat × List (Nat × Nat)) :=
  let tail := (0x80, 0xbf)
  if b < 0x80 then some (b, [])
  else if b < 0xc2 then none
  else if b < 0xe0 then some (b - 0xc0, [tail])
  else if b = 0xe0 then some (0, [(0xa0, 0xbf), tail])
  else if b = 0xed then some (0xd, [(0x80, 0x9f), tail])
  else if b < 0xf0 then some (b - 0xe0, [tail, tail])
  else if b = 0xf0 then some (0, [(0x90, 0xbf), tail, tail])
  else if b < 0xf4 then some (b - 0xf0, [tail, tail, tail])
  else if b = 0xf4 then some (4, [(0x80, 0x8f), tail, tail])
  else none

/-- Reads octets while `owed` are missing from the character whose bits so far are `value`.
An unreadable place gives `none`. -/
def readOctets (owed : List (Nat × Nat)) (value : Nat) : List UInt8 → List (Option Char)
  | [] => if owed.isEmpty then [] else [none]
  | b :: bs =>
    let fresh :=
      match firstOctet? b.toNat with
      | none => none :: readOctets [] 0 bs
      | some (bits, []) => some (Char.ofNat bits) :: readOctets [] 0 bs
      | some (bits, ranges) => readOctets ranges bits bs
    match owed with
    | [] => fresh
    | (lo, hi) :: more =>
      if lo ≤ b.toNat && b.toNat ≤ hi then
        let bits := 64 * value + (b.toNat - 0x80)
        if more.isEmpty then some (Char.ofNat bits) :: readOctets [] 0 bs
        else readOctets more bits bs
      else none :: fresh

/-- The text of the octets, the replacement character standing for each unreadable place. -/
def decodeLoosely (octets : List UInt8) : String :=
  String.ofList ((readOctets [] 0 octets).map (·.getD '\ufffd'))

/-! ## Unreadable places -/

/-- Why octets are no character. -/
inductive BrokenCause where
  /-- No character starts with the octet. -/
  | start
  /-- The octet that follows does not go on with the character. -/
  | continuation
  /-- The text ends within the character. -/
  | cutShort
deriving DecidableEq

/-- The first place that is unreadable: how many octets stand before it, and the octets of the
broken sequence. -/
structure BrokenPlace where
  position : Nat
  octets : List UInt8
  cause : BrokenCause
deriving DecidableEq

/-- The wording of a cause. -/
def BrokenCause.message : BrokenCause → String
  | start => "invalid start byte"
  | continuation => "invalid continuation byte"
  | cutShort => "unexpected end of data"

/-- The wording of an unreadable place. -/
def BrokenPlace.message (place : BrokenPlace) : String :=
  let octets := match place.octets with
    | [b] => "byte 0x" ++ String.ofList (hex 2 b.toNat) ++ " in position " ++
        toString place.position
    | bs => "bytes in position " ++ toString place.position ++ "-" ++
        toString (place.position + bs.length - 1)
  "'utf-8' codec can't decode " ++ octets ++ ": " ++ place.cause.message

/-- Looks for the first unreadable place.  `taken` holds the octets of the sequence that is being
read, last one first, and `owed` the ranges of those that it still needs. -/
def brokenFrom (position : Nat) (taken : List UInt8) (owed : List (Nat × Nat)) :
    List UInt8 → Option BrokenPlace
  | [] => if taken.isEmpty then none else some ⟨position, taken.reverse, .cutShort⟩
  | b :: bs =>
    match owed with
    | [] =>
      match firstOctet? b.toNat with
      | none => some ⟨position, [b], .start⟩
      | some (_, []) => brokenFrom (position + 1) [] [] bs
      | some (_, ranges) => brokenFrom position [b] ranges bs
    | (lo, hi) :: more =>
      if lo ≤ b.toNat && b.toNat ≤ hi then
        if more.isEmpty then brokenFrom (position + taken.length + 1) [] [] bs
        else brokenFrom position (b :: taken) more bs
      else some ⟨position, taken.reverse, .continuation⟩

/-- The first unreadable place. -/
def broken? (octets : List UInt8) : Option BrokenPlace :=
  brokenFrom 0 [] [] octets

/-- The text of the octets, or the first place that is unreadable. -/
def decode (octets : List UInt8) : Except BrokenPlace String :=
  match broken? octets with
  | some place => .error place
  | none => .ok (decodeLoosely octets)

/-! ## Line ends -/

/-- Every line end as a line feed. -/
def unifyLineEnds : List Char → List Char
  | '\r' :: '\n' :: cs => '\n' :: unifyLineEnds cs
  | '\r' :: cs => '\n' :: unifyLineEnds cs
  | c :: cs => c :: unifyLineEnds cs
  | [] => []

/-- The text with every line end as a line feed. -/
def withLineFeeds (s : String) : String :=
  String.ofList (unifyLineEnds s.toList)

end NoteQuery.Text
