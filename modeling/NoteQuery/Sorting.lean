/-
Stable sorting with a comparison that may fail.

The elements that already stand in order at the front are taken as they are, and turned round
if they fall strictly; every further element is put in by halving, behind the elements that are
not larger.  The first comparison that fails ends the sorting.
-/
namespace NoteQuery.Sorting

variable {α ε : Type}

/-- The place of `x` among sorted elements, between two bounds. -/
def place (less : α → α → Except ε Bool) (sorted : List α) (x : α) (low high : Nat) :
    Except ε Nat :=
  if low < high then
    let middle := low + (high - low) / 2
    match sorted[middle]? with
    | none => .ok low
    | some y => do
      if ← less x y then place less sorted x low middle
      else place less sorted x (middle + 1) high
  else .ok low
termination_by high - low

/-- Puts an element among sorted ones. -/
def insert (less : α → α → Except ε Bool) (sorted : List α) (x : α) : Except ε (List α) :=
  (place less sorted x 0 sorted.length).map fun p => sorted.take p ++ x :: sorted.drop p

/-- The elements behind `last` that go on falling, or go on not falling, and the rest. -/
def run (less : α → α → Except ε Bool) (falling : Bool) (last : α) :
    List α → Except ε (List α × List α)
  | [] => .ok ([], [])
  | x :: xs => do
    if (← less x last) = falling then
      let (more, rest) ← run less falling x xs
      return (x :: more, rest)
    else return ([], x :: xs)

/-- The elements in order, equal ones as they stood. -/
def sort (less : α → α → Except ε Bool) : List α → Except ε (List α)
  | x :: y :: xs => do
    let falling ← less y x
    let (more, rest) ← run less falling y xs
    let front := x :: y :: more
    rest.foldlM (insert less) (if falling then front.reverse else front)
  | xs => .ok xs

end NoteQuery.Sorting
