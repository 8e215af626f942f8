/-
Methods.

What each method of the library computes from the value that it is called on and its arguments.
A method is meant for one kind of value; called on another, it does what it can with the parts
that the value has, or is a fault.
-/
import NoteQuery.Calendar.Shift
import NoteQuery.Eval.Functions
import NoteQuery.Sorting
import NoteQuery.Value.Plain

namespace NoteQuery.Library

/-! ## Parts of values -/

/-- The elements of a value that has some. -/
def elements : Value → Except Failure (List Value)
  | .list items => .ok items
  | .string s => .ok (s.toList.map fun c => .string c.toString)
  | .mapping _ entries => .ok (entries.map (·.1))
  | .set items => .ok items
  | .bytes octets => .ok (octets.map fun b => .int b.toNat)
  | _ => .error (.fault .wrongKind)

/-- The parts of a value that can be counted and taken by place. -/
def sequence : Value → Except Failure (List Value)
  | .mapping .. | .set _ => .error (.fault .wrongKind)
  | v => elements v

/-- The text itself, of nothing but a text. -/
def textOf : Value → Except Failure String
  | .string s => .ok s
  | _ => .error (.fault .missingPart)

/-- Puts parts together again as a text or as a list, like the value that they are from. -/
def regroup (like : Value) (parts : List Value) : Value :=
  match like with
  | .string _ => .string (Text.join "" (parts.map Value.displayText))
  | _ => .list parts

/-! ## Cutting -/

/-- A bound for a cut; null is none. -/
def bound? (s : Scope) (v : Value) : Except Failure (Option Int) :=
  match v with
  | .null => .ok none
  | v => do
    let n ← s.number v
    return some (← Failure.ofFault n.trunc)

/-- A bound counted from the start; negative ones count from the end. -/
def place (size : Nat) (bound : Int) : Nat :=
  if bound < 0 then (bound + size).toNat else min bound.toNat size

/-- The elements from one bound up to another. -/
def cut {α : Type} (start stop : Option Int) (xs : List α) : List α :=
  let first := place xs.length (start.getD 0)
  let last := place xs.length (stop.getD xs.length)
  (xs.take last).drop first

/-! ## Texts -/

/-- The one value as displayed has the other as displayed for a part. -/
def displayHas (whole part : Value) : Except Failure Bool := do
  let part ← displayed part
  return textHas (← displayed whole) part

/-- Capital letters at the starts of words; `inWord` says whether a word character stands
before. -/
def capitalized (inWord : Bool) : List Char → List Char
  | [] => []
  | c :: cs =>
    let word := Text.isWord c
    (if word && !inWord then Text.upperChars c else [c]) ++ capitalized word cs

/-- The pieces of a text; the empty separator cuts at every character. -/
def splitText (source : String) (separator : Value) : Except Failure (List Value) :=
  match separator with
  | .pattern p => .ok ((p.split source).map fun piece => piece.elim .null .string)
  | separator => do
    let sep := (← displayed separator).toList
    return if sep.isEmpty then source.toList.map fun c => .string c.toString
      else (Text.pieces sep source.toList).map fun cs => .string (String.ofList cs)

/-- The pieces of a text, no more than a limit asks for. -/
def splitLimited (s : Scope) (source : String) (separator limit : Value) :
    Except Failure Value := do
  let parts ← splitText source separator
  match ← bound? s limit with
  | none => return .list parts
  | some n => return .list (parts.take n.toNat)

/-- The text with places replaced: all places of a text, or the first or all of a pattern. -/
def replaced (source : String) (part : Value) (new : String) : Except Failure String :=
  match part with
  | .pattern p => .ok (p.replaceIn new source)
  | part => do return Text.replace (← displayed part) new source

/-- The longest text that is built by repetition. -/
def longestText : Nat := pow2 32

/-- The text so many times over, if that is not too long. -/
def repeated (s : Scope) (source : String) (count : Value) : Except Failure Value := do
  let n ← s.number count
  let times ← Failure.ofFault n.floor
  if longestText < times.toNat * source.length ∨ pow2 63 ≤ times then
    .error (.fault .integerTooLarge)
  else return .string (String.ofList (Text.times times.toNat source.toList))

/-! ## Numbers -/

/-- The count of places that an argument gives; null is none. -/
def places (s : Scope) (v : Value) : Except Failure Nat :=
  match v with
  | .null => .ok 0
  | v => do
    let n ← s.number v
    return (← Failure.ofFault n.floor).toNat

/-- The number rounded half up to so many places. -/
def roundedTo (n : Number) (places : Nat) : Except Fault Number := do
  let factor := Number.int (pow10 places)
  let scaled ← (← n.mul factor).add (.float (Binary64.ofRatio false 1 2))
  let quotient ← (Number.int (← scaled.floor)).div factor
  if places = 0 then return .int (← quotient.trunc) else return quotient

/-- The most places that a number is written with. -/
def mostPlaces : Nat := 2147483647

/-- The number with exactly so many places. -/
def fixedText (n : Number) (places : Nat) : Except Fault String := do
  if mostPlaces < places then throw .tooManyPlaces
  return (← n.toFloat).fixed places

/-! ## Lists -/

/-- The elements of lists within lists. -/
def flattened : Value → List Value
  | .list items => flattenedItems items
  | v => [v]
where
  flattenedItems : List Value → List Value
    | [] => []
    | v :: vs => flattened v ++ flattenedItems vs

/-- Some element equals each, or one, of the values. -/
def allEqual (strict : Bool) (items : List Value) : List Value → Except Failure Bool
  | [] => .ok true
  | v :: vs => do
    if ← anyEqual strict v items then allEqual strict items vs else return false

def someEqual (strict : Bool) (items : List Value) : List Value → Except Failure Bool
  | [] => .ok false
  | v :: vs => do
    if ← anyEqual strict v items then return true else someEqual strict items vs

/-- The elements whose structural keys have not been seen. -/
def distinct (seen : List String) : List Value → Except Fault (List Value)
  | [] => .ok []
  | v :: vs => do
    let key ← v.stableKey
    if seen.contains key then distinct seen vs
    else return v :: (← distinct (key :: seen) vs)

/-- The elements in the order of values. -/
def sorted (strict : Bool) (items : List Value) : Except Failure (List Value) :=
  Sorting.sort (fun v w => (Value.compare strict v w).map (· == .lt)) items

/-- The scope for an element of a list. -/
def elementScope (s : Scope) (index : Nat) (v : Value) : Scope :=
  s.withBindings [("value", v), ("index", .int index)]

/-- The elements for which the body is truthy. -/
def filtered (s : Scope) (body : Delayed) : (index : Nat) → List Value →
    Except Failure (List Value)
  | _, [] => .ok []
  | i, v :: vs => do
    let keep := (← body (elementScope s i v)).isTruthy
    let rest ← filtered s body (i + 1) vs
    return if keep then v :: rest else rest

/-- The body for each element. -/
def mapped (s : Scope) (body : Delayed) : (index : Nat) → List Value →
    Except Failure (List Value)
  | _, [] => .ok []
  | i, v :: vs => do
    let w ← body (elementScope s i v)
    let rest ← mapped s body (i + 1) vs
    return w :: rest

/-- The elements folded into an accumulator. -/
def reduced (s : Scope) (body : Delayed) : (index : Nat) → Value → List Value →
    Except Failure Value
  | _, acc, [] => .ok acc
  | i, acc, v :: vs => do
    let acc ← body ((elementScope s i v).withBindings [("acc", acc)])
    reduced s body (i + 1) acc vs

/-! ## Files -/

/-- A path without its note ending, in small letters. -/
def foldedPath (path : String) : String :=
  Text.lower (Path.comparable path)

/-- A link leads to the target: the paths are the same or their last segments are, whatever
the case of their letters. -/
def leadsTo (link target : String) : Bool :=
  let l := foldedPath link
  let t := foldedPath target
  l == t || Path.name l == Path.name t

/-- The file links to the value. -/
def fileLinksTo (r : FileRecord Value) (other : Value) : Except Failure Bool :=
  match other.comparablePath? with
  | none => .ok false
  | some wanted =>
    if wanted = "" then .ok false
    else r.links.anyM fun l => do return leadsTo (← displayed l) wanted

/-- A tag without blanks at its ends and without a leading `#`. -/
def tagName (tag : String) : String :=
  match Text.trimChars tag.toList with
  | '#' :: cs => String.ofList cs
  | cs => String.ofList cs

/-- A path of segments equals another or lies below it. -/
def isWithin (outer inner : String) : Bool :=
  inner == outer || Text.startsWith inner (outer ++ "/")

/-- The texts among the tags of a file. -/
def tagTexts (r : FileRecord Value) : List String :=
  r.tags.filterMap fun v => match v with
    | .string s => some (tagName s)
    | _ => none

/-- One of the names is a tag of the file or has one nested under it. -/
def fileHasTag (r : FileRecord Value) (names : List String) : Bool :=
  let wanted := (names.map tagName).filter (· != "")
  wanted.any fun w => (tagTexts r).any (isWithin w)

/-- The path without slashes at its end. -/
def withoutEndSlashes (path : String) : String :=
  String.ofList (Text.trimRightOf (· == '/') path.toList)

/-- The path of a folder. -/
def folderPath (folder : Value) : Except Failure String := do
  return withoutEndSlashes (Path.normalize (← displayed folder))

/-- The file is in the folder or below it; the empty folder holds every file. -/
def fileInFolder (r : FileRecord Value) (wanted : String) : Bool :=
  wanted == "" || isWithin wanted (Path.normalize r.folder)

/-! ## Kinds -/

/-- The name of a kind, as it is asked for. -/
def kindAsked (name : String) : String :=
  match name with
  | "regex" => "regexp"
  | "array" => "list"
  | name => name

/-! ## Dispatch -/

/-- A method without arguments. -/
def bare (args : List Value) (result : Except Failure Value) : Except Failure Value :=
  if args.isEmpty then result else wrongCount

/-- A method on files only. -/
def onFile (target : Value) (f : FileRecord Value → Except Failure Value) :
    Except Failure Value :=
  match target with
  | .file r => f r
  | _ => .error (.fault .missingPart)

/-- A method that wants a timestamp. -/
def onMoment (target : Value) (f : Timestamp → Except Failure Value) : Except Failure Value := do
  f (← Failure.ofFault target.toTimestamp)

/-- Two arguments, which may be left out. -/
def twoOf : List Value → Except Failure (Value × Value)
  | [] => .ok (.null, .null)
  | [a] => .ok (a, .null)
  | [a, b] => .ok (a, b)
  | _ => wrongCount

/-- The bounds that the arguments give. -/
def bounds (s : Scope) (args : List Value) : Except Failure (Option Int × Option Int) := do
  let (start, stop) ← twoOf args
  let start ← bound? s start
  let stop ← bound? s stop
  return (start, stop)

/-- What a method computes from evaluated arguments. -/
def MethodOp.apply (op : MethodOp) (s : Scope) (target : Value) (args : List Value) :
    Except Failure Value :=
  let text := displayed target
  let bool (b : Bool) : Except Failure Value := .ok (.bool b)
  match op with
  | isTruthy => bare args (bool target.isTruthy)
  | isType => optional (fun v => do
      return .bool (target.kind.name == kindAsked (Text.lower (← displayed v)))) args
  | toText => bare args (do return .string (← text))
  | isEmpty =>
    bare args <| match target with
      | .null => bool true
      | .string t => bool t.isEmpty
      | .list items => bool items.isEmpty
      | .mapping _ entries => bool entries.isEmpty
      | _ => bool false
  | hasNoParts => bare args ((elements target).map fun vs => .bool vs.isEmpty)
  | never => bare args (bool false)
  | textContains => optional (fun v => do return .bool (← displayHas target v)) args
  | textContainsAll => do return .bool (← args.allM (displayHas target))
  | textContainsAny => do return .bool (← args.anyM (displayHas target))
  | endsWith => optional (fun v => do
      return .bool (Text.endsWith (← text) (← displayed v))) args
  | startsWith => optional (fun v => do
      return .bool (Text.startsWith (← text) (← displayed v))) args
  | lower => bare args ((textOf target).map fun t => .string (Text.lower t))
  | upper => bare args ((textOf target).map fun t => .string (Text.upper t))
  | title => bare args (do
      return .string (String.ofList (capitalized false (Text.lower (← text)).toList)))
  | trim => bare args ((textOf target).map fun t => .string (Text.trim t))
  | replace => do
    let (part, new) ← twoOf args
    let source ← text
    let new ← displayed new
    return .string (← replaced source part new)
  | times => optional (fun v => do repeated s (← text) v) args
  | reverseText => bare args ((sequence target).map fun vs => regroup target vs.reverse)
  | sliceText => do
    let (start, stop) ← bounds s args
    return .string (String.ofList (cut start stop (← text).toList))
  | split => do
    let (separator, limit) ← twoOf args
    splitLimited s (← text) separator limit
  | abs => bare args (do return .number (← s.number target).abs)
  | ceil => bare args (do return .int (← Failure.ofFault (← s.number target).ceil))
  | floor => bare args (do return .int (← Failure.ofFault (← s.number target).floor))
  | round => optional (fun v => do
      let p ← places s v
      return .number (← Failure.ofFault (roundedTo (← s.number target) p))) args
  | toFixed => optional (fun v => do
      let p ← places s v
      return .string (← Failure.ofFault (fixedText (← s.number target) p))) args
  | startOfDay => bare args (onMoment target fun t => .ok (.timestamp t.startOfDay))
  | format => optional (fun v => onMoment target fun t => do
      return .string (t.format (← displayed v))) args
  | clockTime => bare args (onMoment target fun t => .ok (.string (t.format "HH:mm:ss")))
  | relative =>
    bare args (onMoment target fun t => do
      let now := { s.now with zone := t.zone }
      return .string (← Failure.ofFault (t.phrase now)))
  | listContains => optional (fun v => do
      return .bool (← anyEqual s.strict v (← elements target))) args
  | listContainsAll => do return .bool (← allEqual s.strict (← elements target) args)
  | listContainsAny => do return .bool (← someEqual s.strict (← elements target) args)
  | flat => bare args (do return .list ((← elements target).flatMap flattened))
  | join => optional (fun v => do
      let separator ← match v with
        | .null => .ok ","
        | v => displayed v
      return .string (Text.join separator (← (← elements target).mapM displayed))) args
  | reverseList => bare args (do return .list (← elements target).reverse)
  | sliceList => do
    let (start, stop) ← bounds s args
    return .list (cut start stop (← sequence target))
  | sort => bare args (do return .list (← sorted s.strict (← elements target)))
  | unique => bare args (do return .list (← Failure.ofFault (distinct [] (← elements target))))
  | asFile =>
    bare args <| match target with
      | .link path _ => .ok (.file (s.fileAt path))
      | .file r => .ok (.file (s.fileAt r.path))
      | _ => .error (.fault .missingPart)
  | linksTo => optional (fun v => match target with
      | .link path _ => do return .bool (← fileLinksTo (s.fileAt path) v)
      | .file r => do return .bool (← fileLinksTo (s.fileAt r.path) v)
      | _ => .error (.fault .missingPart)) args
  | asLink => optional (fun v => match target with
      | .file r => .ok (.link (Path.normalize r.path) v)
      | .link path _ => .ok (.link (Path.normalize path) v)
      | _ => .error (.fault .missingPart)) args
  | hasLink => optional (fun v =>
      if (v.comparablePath?.getD "") = "" then bool false
      else onFile target fun r => do return .bool (← fileLinksTo r v)) args
  | hasProperty => optional (fun v => do
      let name ← displayed v
      onFile target fun r => bool (Entries.has r.properties name)) args
  | hasTag => onFile target fun r => do return .bool (fileHasTag r (← args.mapM displayed))
  | inFolder => optional (fun v => do
      let wanted ← folderPath v
      if wanted = "" then bool true
      else onFile target fun r => bool (fileInFolder r wanted)) args
  | keys =>
    bare args <| match target with
      | .mapping _ entries => .ok (.list (entries.map (·.1)))
      | _ => .error (.fault .missingPart)
  | values =>
    bare args <| match target with
      | .mapping live entries =>
        .ok (.list (entries.map fun e => Value.takenFrom live entries e.2))
      | _ => .error (.fault .missingPart)
  | matchesText => optional (fun v => match target with
      | .pattern p => do return .bool (p.occursIn (← displayed v))
      | _ => .error (.fault .missingPart)) args
  | filter | map | reduce => wrongCount

/-- What a method computes from arguments that are still to be evaluated. -/
def MethodOp.applyLazy (op : MethodOp) (s : Scope) (target : Value) (args : List Delayed) :
    Except Failure Value :=
  match op, args with
  | filter, [] | map, [] => do return .list (← elements target)
  | filter, body :: _ => do return .list (← filtered s body 0 (← elements target))
  | map, body :: _ => do return .list (← mapped s body 0 (← elements target))
  | reduce, [] => .ok .null
  | reduce, [body] => do reduced s body 0 .null (← elements target)
  | reduce, body :: seed :: _ => do
    let seed ← seed s
    reduced s body 0 seed (← elements target)
  | op, args => do op.apply s target (← args.mapM (· s))

end NoteQuery.Library
