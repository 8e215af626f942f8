/-
Markdown.

What a note says about other files and itself: tags, links to files, and files shown within it.
The text of the front matter is searched like the rest.
-/
import NoteQuery.Vault.FrontMatter

namespace NoteQuery.Markdown

/-! ## Finding -/

/-- The parts that a form picks, from left to right without overlap.  `covered` characters
still belong to the place found last. -/
def findFrom (form : List Char → Option (List Char × Nat)) :
    (covered : Nat) → List Char → List (List Char)
  | _, [] => []
  | covered + 1, _ :: cs => findFrom form covered cs
  | 0, c :: cs =>
    match form (c :: cs) with
    | some (part, length) => part :: findFrom form (length - 1) cs
    | none => findFrom form 0 cs

/-- The parts that a form picks.  A form gives the part and the length of what it covers. -/
def findAll (form : List Char → Option (List Char × Nat)) (cs : List Char) :
    List (List Char) :=
  findFrom form 0 cs

/-- A run of characters that pass the test, at least one, and what follows. -/
def someOf? (p : Char → Bool) (cs : List Char) : Option (List Char × List Char) :=
  let run := cs.takeWhile p
  if run.isEmpty then none else some (run, cs.drop run.length)

/-- A character of a tag. -/
def isTagChar (c : Char) : Bool :=
  c.isAlphanum || c == '/' || c == '_' || c == '-'

/-- A blank, a number sign, and the characters of a tag. -/
def tagForm : List Char → Option (List Char × Nat)
  | c :: '#' :: cs =>
    if Text.isBlank c then (someOf? isTagChar cs).map fun (tag, _) => (tag, tag.length + 2)
    else none
  | _ => none

/-- A target in double square brackets.  A heading or a label may follow it. -/
def wikiForm : List Char → Option (List Char × Nat)
  | '[' :: '[' :: cs => do
    let (target, rest) ← someOf? (fun c => c != ']' && c != '|' && c != '#') cs
    match rest with
    | ']' :: ']' :: _ => some (target, target.length + 4)
    | ']' :: _ => none
    | _ :: rest =>
      let (more, rest) ← someOf? (· != ']') rest
      match rest with
      | ']' :: ']' :: _ => some (target, target.length + more.length + 5)
      | _ => none
    | [] => none
  | _ => none

/-- A target in round brackets behind a label in square ones, which may be empty or not. -/
def inlineForm (emptyLabel : Bool) : List Char → Option (List Char × Nat)
  | '[' :: cs => do
    let label := cs.takeWhile (· != ']')
    if label.isEmpty && !emptyLabel then none
    match cs.drop label.length with
    | ']' :: '(' :: rest =>
      let (target, rest) ← someOf? (· != ')') rest
      if rest.isEmpty then none else some (target, label.length + target.length + 4)
    | _ => none
  | _ => none

/-- An exclamation mark before another form. -/
def shownForm (form : List Char → Option (List Char × Nat)) :
    List Char → Option (List Char × Nat)
  | '!' :: cs => (form cs).map fun (target, length) => (target, length + 1)
  | _ => none

/-! ## What a note says -/

/-- Texts in order, each once. -/
def inOrder (texts : List String) : List String :=
  (sortTexts texts).eraseReps
where
  sortTexts (texts : List String) : List String :=
    texts.mergeSort fun s t => s ≤ t

/-- A tag without its number sign. -/
def bareTag (tag : String) : String :=
  match tag.toList with
  | '#' :: cs => String.ofList cs
  | _ => tag

/-- The tags that the properties declare: one, or a list. -/
def declaredTags (properties : Entries) : List String :=
  match properties.get? "tags" with
  | some (.string tag) => [tag]
  | some (.list items) => items.filterMap fun
    | .string tag => some tag
    | _ => none
  | _ => []

/-- The tags of a note: those in its text, at the start or behind a blank, and those that it
declares. -/
def tags (raw : String) (properties : Entries) : List String :=
  let inText := (findAll tagForm ('\n' :: raw.toList)).map String.ofList
  inOrder ((inText ++ declaredTags properties).map bareTag)

/-- Targets without blanks around them. -/
def targets (found : List (List Char)) : List String :=
  inOrder ((found.map fun cs => Text.trim (String.ofList cs)).filter (!·.isEmpty))

/-- The targets that a note links to. -/
def links (raw : String) : List String :=
  let cs := raw.toList
  targets (findAll wikiForm cs ++ findAll (inlineForm false) cs)

/-- The targets that a note shows within it. -/
def embeds (raw : String) : List String :=
  let cs := raw.toList
  targets (findAll (shownForm wikiForm) cs ++ findAll (shownForm (inlineForm true)) cs)

/-- All that a note says about other files and itself. -/
structure Metadata where
  properties : Entries
  tags : List String
  links : List String
  embeds : List String

/-- The metadata of a note, and why its front matter was passed over if it was. -/
def read (raw : String) : Except Fault (Metadata × Option FrontMatterError) := do
  let (properties, trouble) := match ← FrontMatter.read raw with
    | .ok properties => (properties, none)
    | .error e => ([], some e)
  return (⟨properties, tags raw properties, links raw, embeds raw⟩, trouble)

end NoteQuery.Markdown
