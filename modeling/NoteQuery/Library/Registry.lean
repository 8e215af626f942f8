/-
The registry.

What can be called at a time.  Entries keep the order in which their names were first
registered; registering a name again replaces the entry in its place.  A method is looked for
among those of the value's kind, then among those of any kind.
-/
import NoteQuery.Library.Catalog
import NoteQuery.Value.Key

namespace NoteQuery.Library

/-- Registered functions and methods, the latter by receiver, and whether the builtin library
has been registered. -/
structure Registry where
  functions : List FunctionEntry
  methods : List (Option Kind × List MethodEntry)
  ready : Bool

namespace Registry

/-- Nothing is registered. -/
def empty : Registry :=
  ⟨[], [], false⟩

/-- Puts an entry in the place of the one with its key, or behind all others. -/
def putBy {α κ : Type} [BEq κ] (key : α → κ) (new : α) : List α → List α
  | [] => [new]
  | old :: rest => if key old == key new then new :: rest else old :: putBy key new rest

def addFunction (r : Registry) (entry : FunctionEntry) : Registry :=
  { r with functions := putBy FunctionEntry.name entry r.functions }

def addMethod (r : Registry) (entry : MethodEntry) : Registry :=
  let others := ((r.methods.lookup entry.receiver).getD [])
  let row := (entry.receiver, putBy MethodEntry.name entry others)
  { r with methods := putBy Prod.fst row r.methods }

/-- Removes all methods.  Whether the registry is ready does not depend on them. -/
def clearMethods (r : Registry) : Registry :=
  { r with methods := [] }

/-- Removes all functions, and all methods with them. -/
def clear (r : Registry) : Registry :=
  clearMethods { r with functions := [], ready := false }

/-- Registers the builtin library, unless it has been. -/
def ensureBuiltins (r : Registry) : Registry :=
  if r.ready then r
  else
    let r := builtinFunctions.foldl addFunction r
    { builtinMethods.foldl addMethod r with ready := true }

/-- The builtin library alone. -/
def builtin : Registry :=
  empty.ensureBuiltins

/-- The function of a name. -/
def function? (r : Registry) (name : String) : Option FunctionEntry :=
  r.functions.find? (·.name == name)

/-- The function of a name, or the fault that there is none. -/
def function (r : Registry) (name : String) : Except Fault FunctionEntry :=
  match r.function? name with
  | some entry => .ok entry
  | none => .error (.unknownFunction name)

/-- The methods registered for exactly this receiver. -/
def methodsFor (r : Registry) (receiver : Option Kind) : List MethodEntry :=
  (r.methods.lookup receiver).getD []

/-- The method of that name for a receiver. -/
def method? (r : Registry) (receiver : Option Kind) (name : String) : Option MethodEntry :=
  match (r.methodsFor receiver).find? (·.name == name) with
  | some entry => some entry
  | none => (r.methodsFor none).find? (·.name == name)

/-- The functions of a category. -/
def inCategory (r : Registry) (category : Category) : List FunctionEntry :=
  r.functions.filter (·.category = category)

/-- Registers a function again under a new name. -/
def addAlias (r : Registry) (new existing : String) : Except Fault Registry :=
  (r.function existing).map fun entry => r.addFunction { entry with name := new }

/-- Registers a method again for a receiver and under a new name. -/
def addMethodAlias (r : Registry) (receiver : Option Kind) (new : String) (source : Option Kind)
    (existing : String) : Except Fault Registry :=
  match r.method? source existing with
  | some entry => .ok (r.addMethod { entry with name := new, receiver })
  | none => .error .wrongKind

/-! ## Documentation -/

def textList (texts : List String) : Value :=
  .list (texts.map Value.string)

def parameterDoc (p : Parameter) : Value :=
  .object (Entries.ofTexts [("name", .string p.name), ("type", .string p.type),
    ("description", .string p.description), ("required", .bool p.required),
    ("variadic", .bool p.variadic)])

/-- A function as documentation shows it. -/
def functionDoc (f : FunctionEntry) : Value :=
  .object (Entries.ofTexts [("name", .string f.name), ("description", .string f.description),
    ("category", .string f.category.name), ("parameters", .list (f.parameters.map parameterDoc)),
    ("returnType", .string f.returnType), ("lazy", .bool f.op.isLazy),
    ("examples", textList f.examples)])

/-- A method as documentation shows it. -/
def methodDoc (m : MethodEntry) : Value :=
  .object (Entries.ofTexts [("name", .string m.name),
    ("receiver", .string (receiverName m.receiver)), ("description", .string m.description),
    ("returnType", .string m.returnType), ("lazy", .bool m.op.isLazy)])

/-- Categories in the order in which their first functions were registered. -/
def usedCategories (r : Registry) : List Category :=
  (r.functions.map FunctionEntry.category).eraseDups

/-- The documentation of everything registered. -/
def documentation (r : Registry) : Value :=
  let functions := r.functions.map fun f => (f.name, functionDoc f)
  let byCategory := r.usedCategories.map fun c =>
    (c.name, Value.list ((r.inCategory c).map functionDoc))
  let methods := r.methods.map fun (receiver, entries) =>
    (receiverName receiver, Value.list (entries.map methodDoc))
  .object (Entries.ofTexts [("functions", .object (Entries.ofTexts functions)),
    ("byCategory", .object (Entries.ofTexts byCategory)),
    ("methods", .object (Entries.ofTexts methods))])

end Registry

end NoteQuery.Library
