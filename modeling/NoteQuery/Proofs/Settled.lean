/-
Values that formulas are not collected in.

The mapping of formulas is the one value that changes while a row is computed: it is live, and
where it was stored in itself a cycle stands for it.  A value is settled if neither is to be found
in it, not even among its keys.  Closing the cycles of a settled value leaves it as it is, and all
that is taken from settled values, or put together from them, is settled.
-/
import NoteQuery.Proofs.Whole

namespace NoteQuery

namespace Value

/-- Nowhere in the value are formulas being collected. -/
inductive Settled : Value → Prop
  | null : Settled .null
  | bool (b : Bool) : Settled (.bool b)
  | number (n : Number) : Settled (.number n)
  | string (s : String) : Settled (.string s)
  | date (d : Date) : Settled (.date d)
  | timestamp (t : Timestamp) : Settled (.timestamp t)
  | duration (d : Duration) : Settled (.duration d)
  | pattern (p : Pattern) : Settled (.pattern p)
  | html (markup : String) : Settled (.html markup)
  | image (source : String) : Settled (.image source)
  | icon (name : String) : Settled (.icon name)
  | bytes (octets : List UInt8) : Settled (.bytes octets)
  | link (path : String) {display : Value} : Settled display → Settled (.link path display)
  | file {r : FileRecord Value} : (∀ v ∈ r.parts, Settled v) → Settled (.file r)
  | list {items : List Value} : (∀ v ∈ items, Settled v) → Settled (.list items)
  | mapping {entries : Entries} : (∀ v ∈ Entries.parts entries, Settled v) →
      Settled (.mapping false entries)
  | set {items : List Value} : (∀ v ∈ items, Settled v) → Settled (.set items)

/-- All of the values are settled. -/
def AllSettled (vs : List Value) : Prop :=
  ∀ v ∈ vs, v.Settled

/-- In a settled value there is no place for a cycle. -/
theorem Settled.whole {v : Value} (h : v.Settled) : v.Whole := by
  induction h with
  | null => exact .null
  | bool b => exact .bool b
  | number n => exact .number n
  | string s => exact .string s
  | date d => exact .date d
  | timestamp t => exact .timestamp t
  | duration d => exact .duration d
  | pattern p => exact .pattern p
  | html markup => exact .html markup
  | image source => exact .image source
  | icon name => exact .icon name
  | bytes octets => exact .bytes octets
  | link path _ ih => exact .link path ih
  | file _ ih => exact .file ih
  | list _ ih => exact .list ih
  | mapping _ ih => exact .mapping ih
  | set _ ih => exact .set ih

theorem Settled.holdsLive_eq {v : Value} (h : v.Settled) : v.holdsLive = false := by
  induction h with
  | link path _ ih => rw [holdsLive, ih]
  | list _ ih =>
    rw [holdsLive, itemsHoldLive_eq, List.any_eq_false]
    exact fun v hv => Bool.eq_false_iff.mp (ih v hv)
  | mapping _ ih =>
    rw [holdsLive, entriesHoldLive_eq, Bool.false_or, List.any_eq_false]
    exact fun e he => Bool.eq_false_iff.mp (ih e.2 (Entries.mem_parts he).2)
  | _ => rfl

/-- A settled value has no cycles to close. -/
theorem Settled.closeCycles_eq {v : Value} (h : v.Settled) : v.closeCycles = v :=
  Value.closeCycles_eq h.holdsLive_eq

/-- A settled value has no cycles in whose places something could be put. -/
theorem Settled.unroll_eq {v whole : Value} (h : v.Settled) : unroll whole v = v :=
  h.whole.unroll_eq

theorem Settled.hereditary : Hereditary Settled where
  null := .null
  bool := .bool
  number := .number
  string := .string
  timestamp := .timestamp
  duration := .duration
  pattern := .pattern
  html := .html
  image := .image
  icon := .icon
  link path _ := .link path
  file := .file
  list := .list
  mapping := .mapping
  shown h := by
    cases h with
    | link _ h => exact h
  parts h := by
    cases h with
    | file h => exact h
  items h := by
    cases h with
    | list h => exact h
  members h := by
    cases h with
    | set h => exact h
  keys h e he := by
    cases h with
    | mapping h => exact h e.1 (Entries.mem_parts he).1
  values h e he := by
    cases h with
    | mapping h => exact h e.2 (Entries.mem_parts he).2

end Value

end NoteQuery
