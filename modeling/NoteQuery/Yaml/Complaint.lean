/-
Complaints about YAML.

A complaint says what is wrong and where, and often what was being read and where that began.
Both places are shown with the line around them.
-/
import NoteQuery.Fault
import NoteQuery.Text.Cut
import NoteQuery.Yaml.Cursor

namespace NoteQuery.Yaml

/-- What was being read. -/
inductive Task where
  | simpleKey | token | directive | directivePart | aliasName | anchorName | tag | tagPart
  | blockScalar | doubleQuoted | quoted
  | node | blockNode | flowNode | blockCollection | blockMapping | flowSequence | flowMapping
  | mapping | orderedMap | pairs
  | onlyDocument
  | anchored (name : String)
deriving DecidableEq

/-- The wording of a task. -/
def Task.message : Task → String
  | simpleKey => "while scanning a simple key"
  | token => "while scanning for the next token"
  | directive => "while scanning a directive"
  | directivePart => "while parsing a directive"
  | aliasName => "while scanning an alias"
  | anchorName => "while scanning an anchor"
  | tag => "while scanning a tag"
  | tagPart => "while parsing a tag"
  | blockScalar => "while scanning a block scalar"
  | doubleQuoted => "while scanning a double-quoted scalar"
  | quoted => "while scanning a quoted scalar"
  | node => "while parsing a node"
  | blockNode => "while parsing a block node"
  | flowNode => "while parsing a flow node"
  | blockCollection => "while parsing a block collection"
  | blockMapping => "while parsing a block mapping"
  | flowSequence => "while parsing a flow sequence"
  | flowMapping => "while parsing a flow mapping"
  | mapping => "while constructing a mapping"
  | orderedMap => "while constructing an ordered map"
  | pairs => "while constructing pairs"
  | onlyDocument => "expected a single document in the stream"
  | anchored name => "found duplicate anchor " ++ Text.messageQuoted name ++ "; first occurrence"

/-- What is wrong.  Expected parts are given by their wording. -/
inductive Problem where
  /-- A character where another was expected. -/
  | character (expected : String) (found : Char)
  /-- A token where another was expected. -/
  | unexpectedToken (expected : String) (found : String)
  /-- A list that goes on with something else than a comma or its end. -/
  | unseparated (closer : Char) (found : String)
  | cannotStart (found : Char)
  | missingColon
  | entryNotAllowed | keyNotAllowed | valueNotAllowed
  | zeroIndentation
  | unknownEscape (found : Char)
  | unfinishedQuote
  | separatorInQuote
  | undecodableEscapes (place : Text.BrokenPlace)
  | repeatedVersion
  | incompatibleVersion
  | repeatedHandle (handle : String)
  | undefinedHandle (handle : String)
  | undefinedAlias (name : String)
  | secondAnchor
  | secondDocument
  | unknownTag (tag : String)
  | unhashableKey
  | notForMerging (found : String)
  | notForMergingOne (found : String)
  /-- A node of one kind where one of another kind was expected. -/
  | nodeKind (expected found : String)
  | itemCount (count : Nat)
  | notAscii
  | badBase64 (reason : String)
deriving DecidableEq

/-- The wording of a problem. -/
def Problem.message : Problem → String
  | character expected found =>
    "expected " ++ expected ++ ", but found " ++ Text.messageQuoted found.toString
  | unexpectedToken expected found =>
    "expected " ++ expected ++ ", but found " ++ Text.messageQuoted found
  | unseparated closer found =>
    "expected ',' or '" ++ closer.toString ++ "', but got " ++ Text.messageQuoted found
  | cannotStart found =>
    "found character " ++ Text.messageQuoted found.toString ++ " that cannot start any token"
  | missingColon => "could not find expected ':'"
  | entryNotAllowed => "sequence entries are not allowed here"
  | keyNotAllowed => "mapping keys are not allowed here"
  | valueNotAllowed => "mapping values are not allowed here"
  | zeroIndentation => "expected indentation indicator in the range 1-9, but found 0"
  | unknownEscape found =>
    "found unknown escape character " ++ Text.messageQuoted found.toString
  | unfinishedQuote => "found unexpected end of stream"
  | separatorInQuote => "found unexpected document separator"
  | undecodableEscapes place => place.message
  | repeatedVersion => "found duplicate YAML directive"
  | incompatibleVersion => "found incompatible YAML document (version 1.* is required)"
  | repeatedHandle handle => "duplicate tag handle " ++ Text.messageQuoted handle
  | undefinedHandle handle => "found undefined tag handle " ++ Text.messageQuoted handle
  | undefinedAlias name => "found undefined alias " ++ Text.messageQuoted name
  | secondAnchor => "second occurrence"
  | secondDocument => "but found another document"
  | unknownTag tag =>
    "could not determine a constructor for the tag " ++ Text.messageQuoted tag
  | unhashableKey => "found unhashable key"
  | notForMerging found =>
    "expected a mapping or list of mappings for merging, but found " ++ found
  | notForMergingOne found => "expected a mapping for merging, but found " ++ found
  | nodeKind expected found => "expected " ++ expected ++ ", but found " ++ found
  | itemCount count => "expected a single mapping item, but found " ++ toString count ++ " items"
  | notAscii => "failed to convert base64 data into ascii: not all characters are ASCII"
  | badBase64 reason => "failed to decode base64 data: " ++ reason

/-- A problem and its place, with the task and the place where the task began. -/
structure Complaint where
  task : Option Task := none
  began : Option Mark := none
  problem : Problem
  place : Mark
deriving DecidableEq

/-! ## Wording -/

/-- The part of a line to one side of a place, nearest character first: all of it, or its first
characters with dots behind them if it is long. -/
def shownSide (side : List Char) : List Char × Bool :=
  let line := side.takeWhile (!endsLine ·)
  if 37 ≤ line.length then (line.take 32, true) else (line, false)

/-- The line around a place and a mark below the place. -/
def snippet (source : List Char) (m : Mark) : List Char :=
  let (before, cutBefore) := shownSide (source.take m.index).reverse
  let (behind, cutBehind) := shownSide (source.drop m.index)
  let dots := [' ', '.', '.', '.', ' ']
  let lead := if cutBefore then dots else []
  let tail := if cutBehind then dots else []
  let indent := List.replicate 4 ' '
  indent ++ lead ++ before.reverse ++ behind ++ tail ++ '\n' :: indent ++
    List.replicate (lead.length + before.length) ' ' ++ ['^']

/-- A place in words, with its line. -/
def Mark.message (source : List Char) (m : Mark) : String :=
  "  in \"<unicode string>\", line " ++ toString (m.line + 1) ++ ", column " ++
    toString (m.column + 1) ++ ":\n" ++ String.ofList (snippet source m)

/-- The wording of a complaint about a text.  The place where the task began is left out if
the problem is at the same place. -/
def Complaint.message (source : List Char) (c : Complaint) : String :=
  let beginning := match c.began with
    | some m =>
      if m.line = c.place.line ∧ m.column = c.place.column then [] else [m.message source]
    | none => []
  Text.join "\n" ((c.task.map Task.message).toList ++ beginning ++
    [c.problem.message, c.place.message source])

/-- Why a text of YAML gives no data: it is no YAML, or a value in it does not exist. -/
inductive Trouble where
  | complaint (c : Complaint)
  | fault (f : Fault)
deriving DecidableEq

/-- Fails with a complaint. -/
def complain {α : Type} (task : Task) (began : Mark) (problem : Problem) (place : Mark) :
    Except Trouble α :=
  .error (.complaint ⟨task, began, problem, place⟩)

/-- Fails with a complaint that needs no task. -/
def complainAt {α : Type} (place : Mark) (problem : Problem) : Except Trouble α :=
  .error (.complaint { problem, place })

end NoteQuery.Yaml
