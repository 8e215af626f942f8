/-
Finding, cutting and replacing a part of a text.

A part is looked for from the left, and the search goes on behind each place where it was
found.  The walks count down the characters that a found part still covers, so they recur on
the text itself.
-/
namespace NoteQuery.Text

/-- The part stands somewhere in the text. -/
def occursIn (part : List Char) : List Char → Bool
  | [] => part.isEmpty
  | c :: cs => part.isPrefixOf (c :: cs) || occursIn part cs

/-- Puts a character before the first piece. -/
def consFirst (c : Char) : List (List Char) → List (List Char)
  | [] => [[c]]
  | piece :: pieces => (c :: piece) :: pieces

/-- The pieces between the places of `part`, when `covered` characters still belong to the
place found last. -/
def piecesFrom (part : List Char) : Nat → List Char → List (List Char)
  | _, [] => [[]]
  | covered + 1, _ :: cs => piecesFrom part covered cs
  | 0, c :: cs =>
    if part.isPrefixOf (c :: cs) then [] :: piecesFrom part (part.length - 1) cs
    else consFirst c (piecesFrom part 0 cs)

/-- The pieces between the places of a non-empty part; at least one piece, which may be
empty. -/
def pieces (part cs : List Char) : List (List Char) :=
  piecesFrom part 0 cs

/-- Puts `new` for `part`, when `covered` characters still belong to the place found last. -/
def replaceFrom (part new : List Char) : Nat → List Char → List Char
  | _, [] => []
  | covered + 1, _ :: cs => replaceFrom part new covered cs
  | 0, c :: cs =>
    if part.isPrefixOf (c :: cs) then new ++ replaceFrom part new (part.length - 1) cs
    else c :: replaceFrom part new 0 cs

/-- Puts `new` for every place of `part`.  The empty part stands before every character and at
the end. -/
def replaceChars (part new cs : List Char) : List Char :=
  if part.isEmpty then new ++ cs.flatMap (· :: new) else replaceFrom part new 0 cs

/-- Puts `new` for every place of `part`. -/
def replace (part new s : String) : String :=
  String.ofList (replaceChars part.toList new.toList s.toList)

/-- The last segment of a text cut at `sep`, and what stands before that last `sep`, if there
is one. -/
def cutLast? (sep : Char) (cs : List Char) : Option (List Char × List Char) :=
  let tail := cs.reverse.takeWhile (· != sep)
  match cs.reverse.drop tail.length with
  | [] => none
  | _ :: front => some (front.reverse, tail.reverse)

/-- The pieces put together with `sep` between them. -/
def joinChars (sep : List Char) : List (List Char) → List Char
  | [] => []
  | [piece] => piece
  | piece :: pieces => piece ++ sep ++ joinChars sep pieces

/-- The pieces put together with `sep` between them. -/
def join (sep : String) (parts : List String) : String :=
  sep.intercalate parts

/-- The text starts with `lead`. -/
def startsWith (s lead : String) : Bool :=
  lead.toList.isPrefixOf s.toList

/-- The text ends with `tail`. -/
def endsWith (s tail : String) : Bool :=
  tail.toList.reverse.isPrefixOf s.toList.reverse

/-- The text `n` times over. -/
def times (n : Nat) (cs : List Char) : List Char :=
  (List.replicate n cs).flatten

theorem piecesFrom_ne_nil (part : List Char) (k : Nat) (cs : List Char) :
    piecesFrom part k cs ≠ [] := by
  induction cs generalizing k with
  | nil => cases k <;> simp [piecesFrom]
  | cons c cs ih =>
    cases k with
    | succ k => simpa [piecesFrom] using ih k
    | zero =>
      rw [piecesFrom]
      split
      · simp
      · cases h : piecesFrom part 0 cs <;> simp [consFirst]

end NoteQuery.Text
