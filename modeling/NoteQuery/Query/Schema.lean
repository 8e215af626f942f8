/-
Query documents.

A document is checked against the form of queries before it is read, and every place where it
departs from the form is reported.  A place is the keys and positions on the way to it; issues
come in the order of their places, and names that several views share come last.  An issue that
quotes an integer too long to be written cannot be told.
-/
import NoteQuery.Query.Failure
import NoteQuery.Query.Spec
import NoteQuery.Yaml.Data

namespace NoteQuery.Schema

/-! ## Issues -/

/-- A step on the way to a place in a document. -/
inductive Step where
  | key (key : Value)
  | position (n : Nat)

/-- What is wrong with a value, in words, which may quote it, and the way to it. -/
structure Issue where
  way : List Step
  message : String
  quoted : Option Value := none

namespace Step

/-- The text by which steps are sorted. -/
def text : Step → String
  | key k => k.keyText
  | position n => toString n

/-- The text of a step in a place; numbers stand in brackets. -/
def placeText : Step → String
  | key (.number (.int n)) => "[" ++ String.ofList (Number.integerText n) ++ "]"
  | key (.bool b) => "[" ++ (Value.bool b).keyText ++ "]"
  | key k => k.keyText
  | position n => "[" ++ toString n ++ "]"

/-- The step has a text. -/
def isWritable : Step → Bool
  | key (.number n) => n.isWritable
  | _ => true

end Step

namespace Issue

/-- The place in words. -/
def place (i : Issue) : String :=
  let joined := Text.join "." (i.way.map Step.placeText)
  let place := Text.replace ".[" "[" joined
  if place.isEmpty then "query" else place

def line (i : Issue) : String :=
  i.place ++ ": " ++ i.message

/-- Ways in order, step by step. -/
def before : List String → List String → Bool
  | [], _ => true
  | _ :: _, [] => false
  | s :: ss, t :: ts => if s = t then before ss ts else s < t

/-- Issues in the order of their places. -/
def inOrder (issues : List Issue) : List Issue :=
  issues.mergeSort fun i j => before (i.way.map Step.text) (j.way.map Step.text)

/-- The issue one step further inside. -/
def under (step : Step) (i : Issue) : Issue :=
  { i with way := step :: i.way }

/-- The issue can be told. -/
def isWritable (i : Issue) : Bool :=
  i.way.all Step.isWritable && i.quoted.all Value.isWritable

end Issue

/-! ## Checks -/

/-- A check finds the issues of a value. -/
abbrev Check := Value → List Issue

def issue (message : String) : List Issue :=
  [{ way := [], message }]

/-- An issue that quotes the value. -/
def issueAbout (v : Value) (trouble : String) : List Issue :=
  [{ way := [], message := v.literal ++ trouble, quoted := some v }]

/-- The value is of one of the sorts that the test admits. -/
def sort (sorts : String) (admits : Value → Bool) : Check := fun v =>
  if admits v then [] else issueAbout v (" is not of type " ++ sorts)

def isString : Value → Bool
  | .string _ => true
  | _ => false

def isNumber : Value → Bool
  | .number _ => true
  | _ => false

def isList : Value → Bool
  | .list _ => true
  | _ => false

def isMapping : Value → Bool
  | .mapping .. => true
  | _ => false

/-- An integer, or a binary number without a fraction. -/
def isInteger : Value → Bool
  | .number (.int _) => true
  | .number (.float x) => x.isFinite && x.isInteger
  | _ => false

/-- A text. -/
def text : Check := sort "'string'" isString

/-- A text that is not empty. -/
def nonEmptyText : Check := fun v =>
  text v ++ if v matches .string "" then issue "'' should be non-empty" else []

/-- A list of items that pass a check. -/
def listOf (check : Check) : Check := fun v =>
  sort "'array'" isList v ++
    match v with
    | .list items =>
      items.zipIdx.flatMap fun (item, n) => (check item).map (Issue.under (.position n))
    | _ => []

/-- A mapping whose entries pass a check.  A null key takes no step. -/
def mappingOf (check : Check) : Check := fun v =>
  sort "'object'" isMapping v ++
    match v with
    | .mapping _ entries => entries.flatMap fun (k, item) =>
      match k with
      | .null => check item
      | k => (check item).map (Issue.under (.key k))
    | _ => []

/-- The checks of the entries that are there. -/
def fields (checks : List (String × Check)) : Check := fun v =>
  match v with
  | .mapping _ entries => checks.flatMap fun (name, check) =>
    match Entries.get? entries name with
    | some item => (check item).map (Issue.under (.key (.string name)))
    | none => []
  | _ => []

/-- A mapping has an entry. -/
def requires (name : String) : Check := fun v =>
  match v with
  | .mapping _ entries =>
    if Entries.has entries name then []
    else issue (Text.messageQuoted name ++ " is a required property")
  | _ => []

/-- One of several forms, judged as a whole. -/
def oneOf (admits : Value → Bool) : Check := fun v =>
  if admits v then [] else issueAbout v " is not valid under any of the given schemas"

def isNonEmptyText : Value → Bool
  | .string s => !s.isEmpty
  | _ => false

mutual

/-- A text that is not empty, or a group of filters. -/
def isFilter : Value → Bool
  | .string s => !s.isEmpty
  | .mapping _ entries => !entries.isEmpty && areFilterParts entries
  | _ => false

def areFilterParts : Entries → Bool
  | [] => true
  | (k, v) :: rest =>
    let fits := match k with
      | .string "and" | .string "or" => match v with
        | .list items => areFilters items
        | _ => false
      | .string "not" => isFilter v
      | _ => false
    fits && areFilterParts rest

def areFilters : List Value → Bool
  | [] => true
  | v :: vs => isFilter v && areFilters vs

end

/-- The words for directions in documents. -/
def directionWords : List String := ["asc", "desc", "ASC", "DESC"]

/-- An entry of a mapping that names a property and a direction. -/
def isSortPart (entry : Value × Value) : Bool :=
  match entry with
  | (.string "property", v) => isNonEmptyText v
  | (.string "direction", .string word) => directionWords.contains word
  | _ => false

/-- A text that is not empty, or a property with a direction. -/
def isSortKey : Value → Bool
  | .mapping _ entries => Entries.has entries "property" && entries.all isSortPart
  | v => isNonEmptyText v

/-- A whole number that is not negative. -/
def limit : Check := fun v =>
  sort "'integer'" isInteger v ++
    match v with
    | .number n =>
      if n.lt (.int 0) then issueAbout v " is less than the minimum of 0" else []
    | _ => []

def columns : Check := listOf nonEmptyText

def summaries : Check := mappingOf text

def view : Check := fun v =>
  sort "'object'" isMapping v ++ requires "name" v ++ fields [
    ("type", text), ("name", nonEmptyText), ("filters", oneOf isFilter), ("order", columns),
    ("properties", columns), ("sort", listOf (oneOf isSortKey)), ("groupBy", oneOf isSortKey),
    ("limit", limit), ("summaries", summaries)] v

/-- A list of views with one view at least. -/
def views : Check := fun v =>
  sort "'array'" isList v ++ (if v matches .list [] then issue "[] should be non-empty" else []) ++
    match v with
    | .list _ => listOf view v
    | _ => []

/-- The form of queries. -/
def document : Check := fun v =>
  requires "views" v ++ fields [
    ("filters", oneOf isFilter),
    ("formulas", mappingOf (sort "'string', 'number'" fun v => isString v || isNumber v)),
    ("properties", columns), ("summaries", summaries), ("views", views)] v

/-- Where a value departs from the form of queries, in words. -/
def formIssues (v : Value) : Except Fault (List String) :=
  let issues := document v
  if issues.all Issue.isWritable then .ok ((Issue.inOrder issues).map Issue.line)
  else .error .integerTooLong

/-! ## Names of views -/

/-- The places of the names that an earlier view has. -/
def repeatedNames (seen : List String) : List (Value × Nat) → List String
  | [] => []
  | (v, n) :: rest =>
    match v with
    | .mapping _ entries =>
      match Entries.get? entries "name" with
      | some (.string name) =>
        let more := repeatedNames (name :: seen) rest
        if seen.contains name then
          ("views[" ++ toString n ++ "].name: duplicate view name '" ++ name ++ "'") :: more
        else more
      | _ => repeatedNames seen rest
    | _ => repeatedNames seen rest

/-- The issues about names that several views share.  What stands for the views has to be
something with members, or empty. -/
def nameIssues (entries : Entries) : Except Fault (List String) :=
  match Entries.get? entries "views" with
  | some (.list items) => .ok (repeatedNames [] items.zipIdx)
  | some (.number n) => if n.isZero then .ok [] else .error .wrongKind
  | some (.bool true) | some (.date _) | some (.timestamp _) => .error .wrongKind
  | _ => .ok []

/-! ## Reading -/

/-- Texts of a list. -/
def textsOf : Value → List String
  | .list items => items.filterMap fun
    | .string s => some s
    | _ => none
  | _ => []

/-- Texts under keys. -/
def textEntries : Option Value → Keyed String
  | some (.mapping _ entries) => entries.filterMap fun (k, v) =>
    match v with
    | .string s => some (k, s)
    | _ => none
  | _ => []

mutual

/-- A filter. -/
def filterOf : Value → FilterSpec
  | .string s => .expression s
  | .mapping _ entries => .group (partsOf "and" entries) (partsOf "or" entries) (withoutOf entries)
  | _ => .always

/-- The filters of a list under a key. -/
def partsOf (key : String) : Entries → Option (List FilterSpec)
  | [] => none
  | (.string k, .list items) :: rest => if k = key then some (filtersOf items) else partsOf key rest
  | _ :: rest => partsOf key rest

/-- The filter that must not hold. -/
def withoutOf : Entries → FilterSpec
  | [] => .always
  | (.string "not", v) :: _ => filterOf v
  | _ :: rest => withoutOf rest

def filtersOf : List Value → List FilterSpec
  | [] => []
  | v :: vs => filterOf v :: filtersOf vs

end

/-- A property with a direction. -/
def sortKeyOf : Value → SortKey
  | .mapping _ entries =>
    let property := match Entries.get? entries "property" with
      | some (.string s) => s
      | _ => ""
    .ofParts property ((Entries.get? entries "direction").getD .null)
  | .string s => .ofText s
  | _ => { property := "" }

/-- The text under a key, or another. -/
def textUnder (entries : Entries) (key default : String) : String :=
  match Entries.get? entries key with
  | some (.string s) => s
  | _ => default

def viewOf : Value → View
  | .mapping _ entries =>
    let columns := (Entries.get? entries "order").or (Entries.get? entries "properties")
    { name := textUnder entries "name" ""
      type := textUnder entries "type" "table"
      filters := ((Entries.get? entries "filters").map filterOf).getD .always
      sort := match Entries.get? entries "sort" with
        | some (.list items) => items.map sortKeyOf
        | _ => []
      columns := columns.map textsOf
      groupBy := (Entries.get? entries "groupBy").map sortKeyOf
      limit := match Entries.get? entries "limit" with
        | some (.number n) => some n
        | _ => none
      summaries := textEntries (Entries.get? entries "summaries") }
  | _ => { name := "" }

/-- The texts of formulas; a number stands for its text. -/
def formulasOf : Option Value → Except Fault (Keyed String)
  | some (.mapping _ entries) => entries.mapM fun (k, v) =>
    if v.isWritable then .ok (k, v.keyText) else .error .integerTooLong
  | _ => .ok []

/-- A query that has passed the checks. -/
def queryOf (entries : Entries) : Except Fault QuerySpec := do
  let formulas ← formulasOf (Entries.get? entries "formulas")
  return {
    views := match Entries.get? entries "views" with
      | some (.list items) => items.map viewOf
      | _ => []
    filters := ((Entries.get? entries "filters").map filterOf).getD .always
    formulas
    properties := (Entries.get? entries "properties").map textsOf
    summaries := textEntries (Entries.get? entries "summaries") }

end NoteQuery.Schema

namespace NoteQuery.QuerySpec

/-- The query of a document. -/
def ofDocument (v : Value) : Except QueryFailure QuerySpec := do
  match v with
  | .mapping _ entries =>
    let lines := (← Schema.formIssues v) ++ (← Schema.nameIssues entries)
    if lines.isEmpty then Schema.queryOf entries else throw (.rejected lines)
  | _ => throw (.rejected ["query must be a YAML object"])

/-- The query that a text of YAML writes. -/
def ofYaml (text : String) : Except QueryFailure QuerySpec :=
  match Yaml.read text with
  | .ok v => ofDocument v
  | .error (.malformed reason) => .error (.rejected ["invalid YAML: " ++ reason])
  | .error (.fault f) => .error (.fault f)

end NoteQuery.QuerySpec
