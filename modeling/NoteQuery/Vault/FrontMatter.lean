/-
Front matter.

A note may begin with a block between two lines of three hyphens.  The block is YAML and gives
the properties of the note; the first line that can close it does.
-/
import NoteQuery.Value.Literal
import NoteQuery.Yaml.Data

namespace NoteQuery

/-- Why the front matter of a note gives no properties. -/
inductive FrontMatterError where
  /-- It is no YAML, for this reason. -/
  | malformed (reason : String)
  /-- It is data of another sort. -/
  | notAMapping (sort : String)
deriving DecidableEq

/-- The wording of an error. -/
def FrontMatterError.message : FrontMatterError → String
  | malformed reason => "invalid YAML front matter: " ++ reason
  | notAMapping sort => "front matter is a " ++ sort ++ ", not a mapping"

namespace FrontMatter

/-- The word for the sort of data that a value of YAML is. -/
def sortWord : Value → String
  | .null => "NoneType"
  | .bool _ => "bool"
  | .number (.int _) => "int"
  | .number (.float _) => "float"
  | .string _ => "str"
  | .date _ => "date"
  | .timestamp _ => "datetime"
  | .list _ => "list"
  | .set _ => "set"
  | .bytes _ => "bytes"
  | _ => "dict"

/-! ## The block -/

/-- What follows a line end. -/
def behindLineEnd? : List Char → Option (List Char)
  | '\r' :: '\n' :: cs => some cs
  | '\n' :: cs => some cs
  | _ => none

/-- What follows three hyphens. -/
def behindHyphens? : List Char → Option (List Char)
  | '-' :: '-' :: '-' :: cs => some cs
  | _ => none

/-- A line end and a line of three hyphens, spaces or tabs behind them, stand here. -/
def closesHere (cs : List Char) : Bool :=
  match (behindLineEnd? cs).bind behindHyphens? with
  | some rest =>
    let rest := rest.dropWhile fun c => c == ' ' || c == '\t'
    rest.isEmpty || (behindLineEnd? rest).isSome
  | none => false

/-- The text up to the first place where the block closes. -/
def untilClosed? : List Char → Option (List Char)
  | [] => none
  | c :: cs => if closesHere (c :: cs) then some [] else (untilClosed? cs).map (c :: ·)

/-- The text of the block of a note. -/
def block? (raw : List Char) : Option (List Char) :=
  ((behindHyphens? raw).bind behindLineEnd?).bind untilClosed?

/-- The properties that a text of YAML gives. -/
def ofBlock (text : String) : Except Fault (Except FrontMatterError Entries) :=
  match Yaml.read text with
  | .error (.malformed reason) => .ok (.error (.malformed reason))
  | .error (.fault f) => .error f
  | .ok .null => .ok (.ok [])
  | .ok (.mapping _ entries) =>
    if entries.all (·.1.isWritable) then
      .ok (.ok (Entries.ofTexts (entries.map fun (k, v) => (k.keyText, v))))
    else .error .integerTooLong
  | .ok v => .ok (.error (.notAMapping (sortWord v)))

/-- The properties of a note: none without a block, or with a blank one. -/
def read (raw : String) : Except Fault (Except FrontMatterError Entries) :=
  match block? raw.toList with
  | none => .ok (.ok [])
  | some cs => if cs.all Text.isBlank then .ok (.ok []) else ofBlock (String.ofList cs)

end FrontMatter

end NoteQuery
