/-
Powers of two and of ten, as numbers on grids need them.
-/
namespace NoteQuery

/-- The power of two with that exponent. -/
abbrev pow2 (n : Nat) : Nat :=
  Nat.pow 2 n

/-- The power of ten with that exponent. -/
abbrev pow10 (n : Nat) : Nat :=
  Nat.pow 10 n

end NoteQuery
