/-
Matching patterns.

The matcher walks the tree with a continuation for what comes behind it, and the first way
through that the continuation accepts is the answer; ways are tried in the order in which the
pattern lists them.  Recursion is on the tree.  A repetition counts its turns down: beyond the
turns it must take, a turn is begun only where the previous one has moved, so the length of
the text bounds them.
-/
import NoteQuery.Pattern.Syntax

namespace NoteQuery.Pattern

/-- Where the matcher stands: the next character, and the span of each group, the latest
first. -/
structure Spot where
  pos : Nat
  groups : List (Nat × Nat × Nat)
deriving DecidableEq

/-- The span of a group. -/
def Spot.group? (s : Spot) (index : Nat) : Option (Nat × Nat) :=
  s.groups.lookup index

/-- The characters of a span. -/
def span (text : Array Char) (first last : Nat) : List Char :=
  (text.extract first last).toList

/-- The character at a place is a word character. -/
def wordAt (text : Array Char) (ascii : Bool) (pos : Nat) : Bool :=
  match text[pos]? with
  | some c => Category.word.holds ascii c
  | none => false

/-- A place lies where words begin or end. -/
def atWordEdge (text : Array Char) (ascii : Bool) (pos : Nat) : Bool :=
  (0 < pos && wordAt text ascii (pos - 1)) != wordAt text ascii pos

/-- The anchor holds at the place.  The empty text has neither kind of word place. -/
def Anchor.holds (text : Array Char) (flags : Flags) (pos : Nat) : Anchor → Bool
  | lineStart => pos == 0 || (flags.multiline && text[pos - 1]? == some '\n')
  | lineEnd =>
    pos == text.size || (pos + 1 == text.size && text[pos]? == some '\n') ||
      (flags.multiline && text[pos]? == some '\n')
  | textStart => pos == 0
  | textEnd => pos == text.size
  | wordEdge => atWordEdge text flags.ascii pos
  | noWordEdge => text.size != 0 && !atWordEdge text flags.ascii pos

/-- What comes behind a tree. -/
abbrev Next := Spot → Option Spot

/-- The next characters are those given, case counting or not. -/
def sameText (flags : Flags) (text : Array Char) (pos : Nat) : List Char → Bool
  | [] => true
  | c :: cs =>
    match text[pos]? with
    | none => false
    | some d =>
      (if flags.ignoreCase then
        fold flags.ascii c.toNat == fold flags.ascii d.toNat
       else c == d) && sameText flags text (pos + 1) cs

/-- Turns of a greedy repetition: `done` are behind us, the last of the free ones began at
`began`. -/
def greedyTurns (body : Next → Next) (least : Nat) (most : Option Nat) (next : Next) :
    (fuel done : Nat) → (began : Option Nat) → Next
  | 0, _, _, s => next s
  | fuel + 1, done, began, s =>
    if done < least then body (greedyTurns body least most next fuel (done + 1) began) s
    else if most.all (done < ·) && began != some s.pos then
      match body (greedyTurns body least most next fuel (done + 1) (some s.pos)) s with
      | some r => some r
      | none => next s
    else next s

/-- Turns of a lazy repetition: what comes behind is tried before a further turn. -/
def lazyTurns (body : Next → Next) (least : Nat) (most : Option Nat) (next : Next) :
    (fuel done : Nat) → (began : Option Nat) → Next
  | 0, _, _, s => next s
  | fuel + 1, done, began, s =>
    if done < least then body (lazyTurns body least most next fuel (done + 1) began) s
    else
      match next s with
      | some r => some r
      | none =>
        if most.all (done < ·) && began != some s.pos then
          body (lazyTurns body least most next fuel (done + 1) (some s.pos)) s
        else none

/-- Turns of a possessive repetition: each is settled by its first way through. -/
def possessiveTurns (body : Next → Next) (least : Nat) (most : Option Nat) :
    (fuel done : Nat) → (began : Option Nat) → Next
  | 0, _, _, s => some s
  | fuel + 1, done, began, s =>
    if done < least then
      (body some s).bind (possessiveTurns body least most fuel (done + 1) began)
    else if most.all (done < ·) && began != some s.pos then
      match body some s with
      | some t => possessiveTurns body least most fuel (done + 1) (some s.pos) t
      | none => some s
    else some s

/-- Takes the tree from a spot on and goes on with what comes behind it. -/
def Node.run (text : Array Char) : Node → Next → Next
  | empty, next, s => next s
  | char flags test, next, s =>
    match text[s.pos]? with
    | some c => if test.holds flags c then next { s with pos := s.pos + 1 } else none
    | none => none
  | place flags anchor, next, s => if anchor.holds text flags s.pos then next s else none
  | seq a b, next, s => a.run text (b.run text next) s
  | either a b, next, s =>
    match a.run text next s with
    | some r => some r
    | none => b.run text next s
  | group none a, next, s => a.run text next s
  | group (some i) a, next, s =>
    a.run text (fun t => next { t with groups := (i, s.pos, t.pos) :: t.groups }) s
  | atomic a, next, s => (a.run text some s).bind next
  | ahead negated a, next, s =>
    match a.run text some s with
    | some t => if negated then none else next { t with pos := s.pos }
    | none => if negated then next s else none
  | behind negated width a, next, s =>
    if s.pos < width then if negated then next s else none
    else
      match a.run text some { s with pos := s.pos - width } with
      | some t => if negated then none else next { t with pos := s.pos }
      | none => if negated then next s else none
  | backref flags i, next, s =>
    match s.group? i with
    | none => none
    | some (first, last) =>
      let cs := span text first last
      if sameText flags text s.pos cs then next { s with pos := s.pos + cs.length } else none
  | branch i a b, next, s =>
    if (s.group? i).isSome then a.run text next s else b.run text next s
  | loop greed least most a, next, s =>
    let fuel := least + (text.size - s.pos) + 2
    match greed with
    | .greedy => greedyTurns (a.run text) least most next fuel 0 none s
    | .lazy => lazyTurns (a.run text) least most next fuel 0 none s
    | .possessive => (possessiveTurns (a.run text) least most fuel 0 none s).bind next

/-- A found place: its span and the spans of the groups. -/
structure Found where
  first : Nat
  last : Nat
  groups : List (Nat × Nat × Nat)

/-- Looks for the tree at `pos` and the `fuel` places behind it.  At the first place the empty
text does not count when `advance` is set. -/
def searchFrom (text : Array Char) (node : Node) :
    (fuel : Nat) → (advance : Bool) → (pos : Nat) → Option Found
  | 0, _, _ => none
  | fuel + 1, advance, pos =>
    let accept : Next := fun t => if advance && t.pos == pos then none else some t
    match node.run text accept ⟨pos, []⟩ with
    | some t => some ⟨pos, t.pos, t.groups⟩
    | none => searchFrom text node fuel false (pos + 1)

/-- The first place of the tree in the text. -/
def search (text : Array Char) (node : Node) : Option Found :=
  searchFrom text node (text.size + 1) false 0

/-- The places of the tree from `pos` on, none overlapping the one before, at most `limit` of
them. -/
def placesFrom (text : Array Char) (node : Node) :
    (limit : Nat) → (advance : Bool) → (pos : Nat) → List Found
  | 0, _, _ => []
  | limit + 1, advance, pos =>
    match searchFrom text node (text.size + 1 - pos) advance pos with
    | none => []
    | some f => f :: placesFrom text node limit (f.last == f.first) f.last

/-- All places of the tree in the text, or the first only. -/
def places (text : Array Char) (node : Node) (all : Bool) : List Found :=
  placesFrom text node (if all then 2 * text.size + 2 else 1) false 0

/-- The text with each place replaced by what `put` makes of it. -/
def substitute (text : Array Char) (put : Found → List Char) : (pos : Nat) → List Found → List Char
  | pos, [] => span text pos text.size
  | pos, f :: fs => span text pos f.first ++ put f ++ substitute text put f.last fs

end NoteQuery.Pattern
