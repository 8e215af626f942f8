/-
Entries of the library.

What can be called: functions by name, and methods on values of a kind.  An entry carries its
documentation and says which operation it performs.
-/
import NoteQuery.Value.Basic

namespace NoteQuery.Library

/-- Groups of functions. -/
inductive Category where
  | string | date | math | collection | logic | file | render
deriving DecidableEq

namespace Category

/-- All categories in the order of the documentation. -/
def all : List Category := [string, date, math, collection, logic, file, render]

def name : Category → String
  | string => "string"
  | date => "date"
  | math => "math"
  | collection => "collection"
  | logic => "logic"
  | file => "file"
  | render => "render"

/-- The category of that name. -/
def ofName? (s : String) : Option Category :=
  all.find? (·.name == s)

end Category

/-- What a function does. -/
inductive FunctionOp where
  | escapeMarkup | makePattern | toDate | toDuration | now | today | toNumber | maximum
  | minimum | collect | contains | total | average | count | choose | findFile | makeLink
  | markup | picture | symbol
deriving DecidableEq

/-- The function chooses for itself which arguments to evaluate. -/
def FunctionOp.isLazy : FunctionOp → Bool
  | choose => true
  | _ => false

/-- What a method does. -/
inductive MethodOp where
  | isTruthy | isType | toText | isEmpty | hasNoParts | never
  | textContains | textContainsAll | textContainsAny | endsWith | startsWith | lower | upper
  | title | trim | replace | times | reverseText | sliceText | split
  | abs | ceil | floor | round | toFixed
  | startOfDay | format | clockTime | relative
  | listContains | listContainsAll | listContainsAny | filter | map | reduce | flat | join
  | reverseList | sliceList | sort | unique
  | asFile | linksTo | asLink | hasLink | hasProperty | hasTag | inFolder
  | keys | values | matchesText
deriving DecidableEq

/-- The method evaluates its argument once for each element. -/
def MethodOp.isLazy : MethodOp → Bool
  | filter | map | reduce => true
  | _ => false

/-- A parameter of a function. -/
structure Parameter where
  name : String
  type : String
  description : String
  required : Bool := true
  variadic : Bool := false

/-- A function. -/
structure FunctionEntry where
  name : String
  description : String
  category : Category
  parameters : List Parameter
  returnType : String
  examples : List String
  op : FunctionOp

/-- A method on values of one kind, or of any. -/
structure MethodEntry where
  name : String
  receiver : Option Kind
  description : String
  returnType : String
  op : MethodOp

/-- The name of a receiver. -/
def receiverName (receiver : Option Kind) : String :=
  match receiver with
  | some kind => kind.name
  | none => "any"

end NoteQuery.Library
