/-
The display form of values.

What a reader sees, and what texts are joined from.  Lists and mappings are shown as compact
data: parts with a notation of their own in it stand there, every other part as the text that
displays it.  Where a key is no scalar, data has no such form, and the literal form is shown.

Not every value can be displayed: an integer may have more digits than are written, and a value may
lead back to itself through links.  Whatever is made from display forms fails with them.
-/
import NoteQuery.Value.Literal

namespace NoteQuery

/-- A binary number as data writes it. -/
def Number.dataText : Number → String
  | .int n => String.ofList (integerText n)
  | .float x =>
    match x with
    | .nan => "NaN"
    | .infinite s => if s then "-Infinity" else "Infinity"
    | .finite .. => x.literal

namespace Value

def boolText (b : Bool) : String :=
  if b then "true" else "false"

/-- A key as data writes it, if it is a scalar. -/
def dataKey? : Value → Option String
  | null => some "null"
  | bool b => some (boolText b)
  | number n => some n.dataText
  | string s => some s
  | _ => none

/-- Texts in the order of their code points. -/
def sortTexts (texts : List String) : List String :=
  texts.mergeSort fun s t => s ≤ t

/-- A list of texts as compact data. -/
def dataList (texts : List String) : String :=
  "[" ++ Text.join "," texts ++ "]"

def dataMapping (texts : List String) : String :=
  "\x7b" ++ Text.join "," texts ++ "\x7d"

/-- The texts of the elements of a set, in order, as compact data. -/
def setDisplay (texts : List String) : String :=
  dataList ((sortTexts texts).map Text.dataQuoted)

mutual

/-- The text that displays the value, where nothing stands in the way. -/
def displayText : Value → String
  | null => ""
  | bool b => boolText b
  | number n => n.display
  | string s => s
  | date d => d.iso
  | timestamp t => t.iso
  | duration d => d.display
  | pattern p => p.display
  | link path shown =>
    match shown with
    | null => path
    | shown => shown.displayText
  | file r => r.path
  | html s => s
  | image s => s
  | icon s => s
  | list items =>
    match dataItems? items with
    | some texts => dataList texts
    | none => literal (list items)
  | mapping live entries =>
    match dataEntries? entries with
    | some texts => dataMapping texts
    | none => literal (mapping live entries)
  | set items => setDisplay (displayTexts items)
  | bytes octets => literal (bytes octets)
  | cycle => literal cycle

def displayTexts : List Value → List String
  | [] => []
  | v :: vs => v.displayText :: displayTexts vs

/-- The value as compact data, if it has such a form. -/
def data? : Value → Option String
  | null => some "null"
  | bool b => some (boolText b)
  | number n => some n.dataText
  | string s => some (Text.dataQuoted s)
  | date d => some (Text.dataQuoted d.iso)
  | timestamp t => some (Text.dataQuoted t.iso)
  | duration d => some (Text.dataQuoted d.display)
  | pattern p => some (Text.dataQuoted p.display)
  | link path shown =>
    match shown with
    | null => some (Text.dataQuoted path)
    | shown => some (Text.dataQuoted shown.displayText)
  | file r => some (Text.dataQuoted r.path)
  | html s => some (Text.dataQuoted s)
  | image s => some (Text.dataQuoted s)
  | icon s => some (Text.dataQuoted s)
  | list items => (dataItems? items).map dataList
  | mapping _ entries => (dataEntries? entries).map dataMapping
  | set items => some (Text.dataQuoted (setDisplay (displayTexts items)))
  | bytes octets => some (Text.dataQuoted (literal (bytes octets)))
  | cycle => none

def dataItems? : List Value → Option (List String)
  | [] => some []
  | v :: vs => do
    let text ← v.data?
    let texts ← dataItems? vs
    return text :: texts

def dataEntries? : Entries → Option (List String)
  | [] => some []
  | (k, v) :: rest => do
    let key ← k.dataKey?
    let text ← v.data?
    let texts ← dataEntries? rest
    return (Text.dataQuoted key ++ ":" ++ text) :: texts

end

/-! ## What can be displayed -/

/-- What cannot be shown leaves data without a form, but what has no end stays without one. -/
def hasDataIf : Except Fault Unit → Except Fault Bool
  | .ok () => .ok true
  | .error .selfContaining => .error .selfContaining
  | .error _ => .ok false

mutual

/-- The value can be displayed.  Data that has no form is shown in literal form.  Where a mapping
that formulas are collected in has been entered, its display leads back to itself without end. -/
def checkShown (entered : Bool) : Value → Except Fault Unit
  | number n => (number n).checkWritable
  | duration d => (duration d).checkWritable
  | link _ shown => shown.checkShown entered
  | list items => do
    if ← itemsHaveData entered false items then .ok () else (list items).checkWritable
  | mapping live entries => do
    if ← entriesHaveData (entered || live) live entries then .ok ()
    else (mapping live entries).checkWritable
  | set items => checkAllShown entered items
  | cycle => if entered then .error .selfContaining else .ok ()
  | _ => .ok ()

def checkAllShown (entered : Bool) : List Value → Except Fault Unit
  | [] => .ok ()
  | v :: vs => do
    v.checkShown entered
    checkAllShown entered vs

/-- The value has a form as compact data; `within` tells that the mapping that was entered is a part
of the same data, which has no form if it comes back to it. -/
def hasData (entered within : Bool) : Value → Except Fault Bool
  | number n => .ok n.isWritable
  | duration d => .ok (duration d).isWritable
  | link _ shown => hasDataIf (shown.checkShown entered)
  | list items => itemsHaveData entered within items
  | mapping live entries => entriesHaveData (entered || live) (within || live) entries
  | set items => hasDataIf (checkAllShown entered items)
  | cycle => if entered && !within then .error .selfContaining else .ok false
  | _ => .ok true

def itemsHaveData (entered within : Bool) : List Value → Except Fault Bool
  | [] => .ok true
  | v :: vs => do
    if ← v.hasData entered within then itemsHaveData entered within vs else return false

def entriesHaveData (entered within : Bool) : Entries → Except Fault Bool
  | [] => .ok true
  | (k, v) :: rest => do
    if k.dataKey?.isNone || !k.isWritable then return false
    if ← v.hasData entered within then entriesHaveData entered within rest else return false

end

/-- The display form, of a value that can be displayed. -/
def display (v : Value) : Except Fault String := do
  v.checkShown false
  return v.displayText

end Value

end NoteQuery
