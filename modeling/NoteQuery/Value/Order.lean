/-
Numbers from values, order and equality.

Values of unlike kinds are compared too.  Dates are compared as moments and durations by their
lengths; texts, numbers and truth values among themselves; all else by its display form.  Links,
files and texts are equal when they write the same path, and a number is equal to whatever
converts to it.
-/
import NoteQuery.Failure
import NoteQuery.Number.Reading
import NoteQuery.Value.StableKey

namespace NoteQuery

namespace Value

/-- The number that a text writes; blank texts write zero. -/
def numberOfText? (s : String) : Option Number :=
  if Text.isBlankText s then some (.int 0)
  else
    match Binary64.ofChars? s.toList with
    | some x => if x.isFinite then some (.float x) else none
    | none => none

/-- The number for a value that has none: zero, unless evaluation is strict. -/
def withoutNumber (strict : Bool) (v : Value) : Except Failure Number :=
  if strict then do
    let text ← Failure.ofFault v.display
    .error (.evaluation (.notANumber text))
  else .ok (.int 0)

/-- The number that a value converts to. -/
def toNumber (strict : Bool) (v : Value) : Except Failure Number :=
  match v with
  | null => .ok (.int 0)
  | bool b => .ok (.int (if b then 1 else 0))
  | number n => .ok n
  | date d => Failure.ofFault ((Timestamp.midnight d).epochMillis.map .int)
  | timestamp t => Failure.ofFault (t.epochMillis.map .int)
  | duration d => Failure.ofFault d.toMillis
  | string s =>
    match numberOfText? s with
    | some n => .ok n
    | none => withoutNumber strict v
  | v => withoutNumber strict v

/-! ## Order -/

/-- The sign of a difference; a difference that is no number counts as none. -/
def signOf (n : Number) : Ordering :=
  n.order (.int 0)

/-- The order of two texts by code points. -/
def compareTexts (s t : String) : Ordering :=
  if s < t then .lt else if t < s then .gt else .eq

/-- How two values compare. -/
def compare (strict : Bool) (v w : Value) : Except Failure Ordering :=
  match v.moment?, w.moment? with
  | some t, some u => Failure.ofFault do
    return Ord.compare (← t.epochMillis) (← u.epochMillis)
  | _, _ =>
    if v.kind = .duration ∨ w.kind = .duration then do
      let m ← v.toNumber strict
      let n ← w.toNumber strict
      return signOf (← Failure.ofFault (m.sub n))
    else
      match v, w with
      | string s, string t => .ok (compareTexts s t)
      | number m, number n => .ok (m.order n)
      | bool a, bool b => .ok (Ord.compare a b)
      | v, w => Failure.ofFault do return compareTexts (← v.display) (← w.display)

/-! ## Equality -/

/-- The values are written alike, where neither has a kind of equality of its own. -/
def plainlyEqual : Value → Value → Bool
  | null, null => true
  | bool a, bool b => a == b
  | pattern p, pattern q => p.body == q.body && p.flags == q.flags
  | html s, html t => s == t
  | image s, image t => s == t
  | icon s, icon t => s == t
  | _, _ => false

/-- Equality of values that are not both lists. -/
def equalParts (strict : Bool) (v w : Value) : Except Failure Bool :=
  match v.moment?, w.moment? with
  | some t, some u => Failure.ofFault do
    return (← t.epochMillis) == (← u.epochMillis)
  | _, _ =>
    match v.comparablePath?, w.comparablePath? with
    | some p, some q => .ok (p == q)
    | _, _ =>
      match v, w with
      | duration d, duration e => Failure.ofFault do
        return (← d.toMillis).same (← e.toMillis)
      | _, _ =>
        if v.kind = .number ∨ w.kind = .number then do
          let m ← v.toNumber strict
          let n ← w.toNumber strict
          return m.same n
        else if v.kind = .object ∧ w.kind = .object then Failure.ofFault do
          return (← v.stableKey) == (← w.stableKey)
        else .ok (plainlyEqual v w)

mutual

/-- The values are equal. -/
def equals (strict : Bool) (v w : Value) : Except Failure Bool :=
  match v with
  | list items =>
    match w with
    | list others =>
      if items.length = others.length then equalItems strict items others else .ok false
    | w => equalParts strict (list items) w
  | v => equalParts strict v w

/-- The values are equal one by one; the first that are not end the comparison. -/
def equalItems (strict : Bool) : List Value → List Value → Except Failure Bool
  | v :: vs, w :: ws => do
    if ← v.equals strict w then equalItems strict vs ws else return false
  | _, _ => .ok true

end

end Value

end NoteQuery
