/-
Data of YAML.

The tree of a document becomes a value, node by node as the tags say.  A mapping may take over
the pairs of others under the sign of merging: its own pairs win, and of several others the
first.  Collections are filled level by level, so of several troubles the one nearest to the
root counts, and among equals the first in the text.
-/
import NoteQuery.Number.Reading
import NoteQuery.Text.Case
import NoteQuery.Value.Key
import NoteQuery.Yaml.Node

namespace NoteQuery.Yaml

/-! ## Scalars -/

/-- Takes off the mark of a base, which needs a zero in front. -/
def dropBaseMark (base : Nat) : List Char → List Char
  | '0' :: c :: cs =>
    let marks := [(2, 'b'), (8, 'o'), (16, 'x')]
    if marks.lookup base == some c.toLower then cs else '0' :: c :: cs
  | cs => cs

/-- The value of a digit in bases up to sixteen. -/
def digitOfBase? (base : Nat) (c : Char) : Option Nat :=
  let d :=
    if c.isDigit then some (c.toNat - 48)
    else if isHexDigit c then some (c.toLower.toNat - 87)
    else none
  d.filter (· < base)

/-- An integer that a text writes in a base, with a sign and blanks around it. -/
def integerOf (base : Nat) (text : List Char) : Except Fault Int := do
  let refused := Fault.notAnInteger base (Text.messageQuoted (String.ofList text))
  let (minus, body) := Binary64.takeSign ((Text.trimChars text).map Text.asciiDigit)
  let digits := dropBaseMark base body
  if base = 10 && 4300 < digits.length && digits.all Char.isDigit then
    throw (.tooManyDigits digits.length)
  match digits.mapM (digitOfBase? base) with
  | some (d :: ds) =>
    let n := (d :: ds).foldl (fun n d => base * n + d) 0
    return if minus then -(n : Int) else n
  | _ => throw refused

/-- The texts between colons. -/
def colonParts (cs : List Char) : List (List Char) :=
  Text.pieces [':'] cs

/-- Sums parts in sixtieths, the last part counting once. -/
def sixtieths (parts : List Number) : Except Fault Number :=
  (parts.reverse.zipIdx).foldlM (fun sum (part, n) => do
    sum.add (← part.mul (.int (Nat.pow 60 n)))) (.float (.zero false))

/-- Splits a sign off a text that is not empty. -/
def signOf (cs : List Char) : Except Fault (Int × List Char) :=
  match cs with
  | [] => .error .emptyNumeral
  | '-' :: cs => .ok (-1, cs)
  | '+' :: cs => .ok (1, cs)
  | cs => .ok (1, cs)

/-- The integer of a scalar. -/
def intOf (text : String) : Except Fault Value := do
  let (sign, body) ← signOf (text.toList.filter (· != '_'))
  let magnitude ← match body with
    | [] => throw .emptyNumeral
    | ['0'] => pure 0
    | '0' :: 'b' :: digits => integerOf 2 digits
    | '0' :: 'x' :: digits => integerOf 16 digits
    | '0' :: _ => integerOf 8 body
    | _ =>
      if body.contains ':' then
        let parts ← (colonParts body).mapM (integerOf 10)
        pure (parts.foldl (fun n part => 60 * n + part) 0)
      else integerOf 10 body
  return .int (sign * magnitude)

/-- The binary number that a part of a scalar writes. -/
def floatPart (cs : List Char) : Except Fault Number :=
  match Binary64.ofChars? cs with
  | some x => .ok (.float x)
  | none => .error (.notANumeral (Text.messageQuoted (String.ofList cs)))

/-- The binary number of a scalar. -/
def floatOf (text : String) : Except Fault Value := do
  let lower := (Text.lower text).toList.filter (· != '_')
  let (sign, body) ← signOf lower
  let signed (x : Number) : Value := .number (if sign < 0 then x.neg else x)
  if body = ".inf".toList then return signed (.float (.infinite false))
  if body = ".nan".toList then return .float .nan
  if body.contains ':' then
    let parts ← (colonParts body).mapM floatPart
    return signed (← sixtieths parts)
  return signed (← floatPart body)

/-- The truth value of a scalar. -/
def boolOf (text : String) : Except Fault Value :=
  let lower := Text.lower text
  match Tag.truthWords.lookup lower with
  | some b => .ok (.bool b)
  | none => .error (.missingKey lower)

/-- The part of a moment lies in its range. -/
def checkPart (part : String) (least greatest n : Nat) : Except Fault Unit :=
  if least ≤ n && n ≤ greatest then .ok () else .error (.partOutOfRange part least greatest)

/-- The day with these numbers. -/
def dayOf (year month day : Nat) : Except Fault Date := do
  if year = 0 then throw (.yearOutOfRange 0)
  checkPart "month" 1 12 month
  match Date.of? year month day with
  | some d => return d
  | none => throw .noSuchDay

/-- The zone at a distance in minutes. -/
def zoneOf (offset : Int) : Except Fault Zone :=
  match Zone.of? (offset * 60000000) with
  | some zone => .ok zone
  | none => .error (.offsetOutOfRange offset)

/-- The day or moment of a scalar. -/
def momentOf (text : String) : Except Fault Value := do
  let cs := text.toList
  let cs := if cs.getLast? == some '\n' then cs.dropLast else cs
  let some parts := Tag.moment? cs | throw .missingPart
  match parts.time with
  | none => return .date (← dayOf parts.year parts.month parts.day)
  | some time =>
    let zone ← time.zone.mapM zoneOf
    let date ← dayOf parts.year parts.month parts.day
    checkPart "hour" 0 23 time.hour
    checkPart "minute" 0 59 time.minute
    checkPart "second" 0 59 time.second
    match Timestamp.of? date time.hour time.minute time.second time.micros zone with
    | some t => return .timestamp t
    | none => throw .noSuchDay

/-- The six bits of a character of base 64. -/
def sixBits? (c : Char) : Option Nat :=
  if 'A' ≤ c && c ≤ 'Z' then some (c.toNat - 65)
  else if 'a' ≤ c && c ≤ 'z' then some (c.toNat - 71)
  else if c.isDigit then some (c.toNat + 4)
  else if c = '+' then some 62
  else if c = '/' then some 63
  else none

/-- Octets written in base 64, characters of no value passed over.  `filled` counts the
characters of the group so far, `left` holds the bits not yet written, `total` counts octets
and `padding` the signs of filling since the last character. -/
def octetsOf (filled left total padding : Nat) : List Char → Except String (List UInt8)
  | [] =>
    if filled = 0 then .ok []
    else if filled = 1 then
      .error ("Invalid base64-encoded string: number of data characters (" ++
        toString (total / 3 * 4 + 1) ++ ") cannot be 1 more than a multiple of 4")
    else .error "Incorrect padding"
  | c :: cs =>
    if c = '=' then
      let counts := 2 ≤ filled
      if counts && 4 ≤ filled + padding + 1 then .ok []
      else octetsOf filled left total (if counts then padding + 1 else padding) cs
    else
      match sixBits? c with
      | none => octetsOf filled left total padding cs
      | some bits =>
        let octet (n : Nat) (rest : Except String (List UInt8)) := rest.map (UInt8.ofNat n :: ·)
        match filled with
        | 0 => octetsOf 1 bits total 0 cs
        | 1 => octet (left * 4 + bits / 16) (octetsOf 2 (bits % 16) (total + 1) 0 cs)
        | 2 => octet (left * 16 + bits / 4) (octetsOf 3 (bits % 4) (total + 1) 0 cs)
        | _ => octet (left * 64 + bits) (octetsOf 0 0 (total + 1) 0 cs)

/-- The octets of a scalar. -/
def bytesOf (mark : Mark) (text : String) : Except Trouble Value :=
  if text.toList.all (·.toNat < 128) then
    match octetsOf 0 0 0 0 text.toList with
    | .ok octets => .ok (.bytes octets)
    | .error reason => complainAt mark (.badBase64 reason)
  else complainAt mark .notAscii

/-! ## Building values -/

/-- Trouble, and how many collections lie between it and the node that has it. -/
structure Flaw where
  depth : Nat
  trouble : Trouble

namespace Flaw

/-- Trouble of the node itself. -/
def here {α : Type} : Except Trouble α → Except Flaw α
  | .ok a => .ok a
  | .error trouble => .error ⟨0, trouble⟩

/-- Trouble of a node inside of another. -/
def within {α : Type} : Except Flaw α → Except Flaw α
  | .ok a => .ok a
  | .error flaw => .error { flaw with depth := flaw.depth + 1 }

/-- All results, or the trouble that counts. -/
def gather {α : Type} : List (Except Flaw α) → Except Flaw (List α)
  | [] => .ok []
  | r :: rs =>
    match r, gather rs with
    | .ok a, .ok as => .ok (a :: as)
    | .ok _, .error f => .error f
    | .error e, .ok _ => .error e
    | .error e, .error f => .error (if f.depth < e.depth then f else e)

end Flaw

/-- What has become of a node: its form, the text it has as a scalar, and its value. -/
structure Part where
  form : String
  tag : String
  mark : Mark
  text : Except Trouble String
  value : Except Flaw Value

/-- A node that others may refer to: its part, its pairs as written if it is a mapping, and
the pairs that it gives to a mapping that begins at the mark. -/
structure Built where
  part : Part
  pairs : List (Part × Part)
  merged : Mark → Except Trouble (List (Part × Part))

/-- The tags of data that may change, and so cannot be keys. -/
def mutableTags : List String := [Tag.seq, Tag.map, Tag.set, Tag.orderedMap, Tag.pairs]

/-- Results below a fault. -/
def orFault (r : Except Fault Value) : Except Trouble Value :=
  r.mapError .fault

/-- The value of a pair, the key first. -/
def pairValue (mapping : Mark) (pair : Part × Part) : Except Flaw (Value × Value) :=
  let (key, value) := pair
  let keyValue := if mutableTags.contains key.tag then
      Flaw.here (complain .mapping mapping .unhashableKey key.mark)
    else key.value
  match Flaw.gather [keyValue, value.value] with
  | .ok [k, v] => .ok (k, v)
  | .ok _ => .ok (.null, .null)
  | .error f => .error f

/-- The pairs of a mapping with those that it takes over in front. -/
def mergedPairs (mapping : Mark) (pairs : List (Built × Built)) :
    Except Trouble (List (Part × Part)) := do
  let isMerge (pair : Built × Built) : Bool := pair.1.part.tag == Tag.merge
  let taken ← (pairs.filter isMerge).mapM fun (_, source) => source.merged mapping
  let own := (pairs.filter (!isMerge ·)).map fun (key, value) =>
    let key := key.part
    if key.tag = Tag.value then
      ({ key with tag := Tag.str, value := Flaw.here (key.text.map Value.string) }, value.part)
    else (key, value.part)
  return taken.flatten ++ own

/-- The pairs of an ordered map, each a mapping of one pair. -/
def orderedPairs (task : Task) (mark : Mark) (items : List Built) : Except Flaw Value := do
  let pairs := items.map fun item =>
    if item.part.form != "mapping" then
      Flaw.here (complain task mark
        (.nodeKind "a mapping of length 1" item.part.form) item.part.mark)
    else
      match item.pairs with
      | [(key, value)] => (Flaw.gather [key.value, value.value]).map Value.list
      | pairs => Flaw.here (complain task mark (.itemCount pairs.length) item.part.mark)
  return .list (← Flaw.gather pairs)

/-- The value of a scalar text with a tag. -/
def scalarValue (tag : String) (mark : Mark) (form : String) (text : Except Trouble String) :
    Except Trouble Value :=
  if tag = Tag.null then text.map fun _ => .null
  else if tag = Tag.bool then text.bind fun s => orFault (boolOf s)
  else if tag = Tag.int then text.bind fun s => orFault (intOf s)
  else if tag = Tag.float then text.bind fun s => orFault (floatOf s)
  else if tag = Tag.binary then text.bind (bytesOf mark)
  else if tag = Tag.timestamp then
    text.bind fun s => orFault (if form = "scalar" then momentOf s else .error .wrongKind)
  else if tag = Tag.str then text.map .string
  else complainAt mark (.unknownTag tag)

/-- The value of a node with a tag, of which it is known what it gives as each sort of
collection. -/
def valueFor (tag : String) (mark : Mark) (form : String) (text : Except Trouble String)
    (items : Option (List Built)) (entries : Option (Except Trouble (List (Part × Part)))) :
    Except Flaw Value :=
  let refused (expected : String) : Except Flaw Value :=
    Flaw.here (complainAt mark (.nodeKind expected form))
  let filled : Except Flaw Entries := match entries with
    | none => (refused "a mapping node").map fun _ => []
    | some entries =>
      (Flaw.here entries).bind fun pairs =>
        (Flaw.gather (pairs.map (pairValue mark))).map Entries.ofList
  let ordered (task : Task) : Except Flaw Value := match items with
    | none => Flaw.here (complain task mark (.nodeKind "a sequence" form) mark)
    | some items => orderedPairs task mark items
  if tag = Tag.seq then
    Flaw.within (match items with
      | none => refused "a sequence node"
      | some items => (Flaw.gather (items.map (·.part.value))).map Value.list)
  else if tag = Tag.map then Flaw.within (filled.map Value.object)
  else if tag = Tag.set then Flaw.within (filled.map fun es => .set (es.map (·.1)))
  else if tag = Tag.orderedMap then Flaw.within (ordered .orderedMap)
  else if tag = Tag.pairs then Flaw.within (ordered .pairs)
  else Flaw.here (scalarValue tag mark form text)

/-- The text of a mapping in the place of a scalar: what it has under the sign of a value. -/
def mappingText (mark : Mark) (pairs : List (Part × Part)) : Except Trouble String :=
  match pairs.find? (·.1.tag == Tag.value) with
  | some (_, value) => value.text
  | none => complainAt mark (.nodeKind "a scalar node" "mapping")

mutual

/-- What becomes of a node. -/
def build : Node → Built
  | .scalar tag text mark =>
    let value := valueFor tag mark "scalar" (.ok text) none none
    { part := { form := "scalar", tag, mark, text := .ok text, value }
      pairs := []
      merged := fun start => complain .mapping start (.notForMerging "scalar") mark }
  | .sequence tag items mark =>
    let items := buildAll items
    let text := complainAt mark (.nodeKind "a scalar node" "sequence")
    let value := valueFor tag mark "sequence" text (some items) none
    { part := { form := "sequence", tag, mark, text, value }
      pairs := []
      merged := fun start => do
        let taken ← items.mapM fun item =>
          if item.part.form = "mapping" then item.merged start
          else complain .mapping start (.notForMergingOne item.part.form) item.part.mark
        return taken.reverse.flatten }
  | .mapping tag pairs mark =>
    let pairs := buildPairs pairs
    let parts := pairs.map fun (key, value) => (key.part, value.part)
    let text := mappingText mark parts
    let entries := mergedPairs mark pairs
    let value := valueFor tag mark "mapping" text none (some entries)
    { part := { form := "mapping", tag, mark, text, value }
      pairs := parts
      merged := fun _ => entries }
  | .loop isMapping mark =>
    let form := if isMapping then "mapping" else "sequence"
    { part := {
        form, tag := if isMapping then Tag.map else Tag.seq, mark,
        text := complainAt mark (.nodeKind "a scalar node" form), value := .ok .cycle }
      pairs := []
      merged := fun _ => .ok [] }

def buildAll : List Node → List Built
  | [] => []
  | n :: ns => build n :: buildAll ns

def buildPairs : List (Node × Node) → List (Built × Built)
  | [] => []
  | (k, v) :: rest => (build k, build v) :: buildPairs rest

end

/-- The place of the first character that no text of YAML may hold. -/
def firstRefused? (cs : List Char) : Option (Nat × Char) :=
  (cs.zipIdx.find? fun p => !isAdmitted p.1).map fun (c, n) => (n, c)

/-- Why a text could not be read: it is no YAML, in words, or a value in it does not exist. -/
inductive Refusal where
  | malformed (message : String)
  | fault (f : Fault)
deriving DecidableEq

/-- The wording about a character that no text of YAML may hold. -/
def refusedMessage (place : Nat) (c : Char) : String :=
  let digits := Nat.toDigits 16 c.toNat
  "unacceptable character #x" ++ String.ofList (List.replicate (4 - digits.length) '0' ++ digits)
    ++ ": special characters are not allowed\n  in \"<unicode string>\", position " ++
    toString place

/-- The value of a text of YAML; an empty text is null. -/
def read (text : String) : Except Refusal Value :=
  let source := text.toList
  match firstRefused? source with
  | some (place, c) => .error (.malformed (refusedMessage place c))
  | none =>
    let (ts, ending) := tokens source
    let value : Except Trouble Value := do
      match ← Node.ofTokens? ts ending with
      | none => return .null
      | some node => (build node).part.value.mapError Flaw.trouble
    match value with
    | .ok v => .ok v
    | .error (.complaint c) => .error (.malformed (c.message source))
    | .error (.fault f) => .error (.fault f)

end NoteQuery.Yaml
