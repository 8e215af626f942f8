/-
Values that do not contain themselves.

A cycle marks the place where a mapping was stored in itself.  A value is whole if there is none
anywhere in it.  All that is taken from whole values, or put together from them, is whole; a cycle
arises in one way only, when a value is stored that holds the mapping in which it is stored.
-/
import NoteQuery.Proofs.Hereditary

namespace NoteQuery

namespace Value

/-! ## Collections -/

theorem itemsHoldLive_eq (items : List Value) : itemsHoldLive items = items.any holdsLive := by
  induction items with
  | nil => rfl
  | cons v items ih => rw [itemsHoldLive, ih, List.any_cons]

theorem entriesHoldLive_eq (entries : Entries) :
    entriesHoldLive entries = entries.any (·.2.holdsLive) := by
  induction entries with
  | nil => rfl
  | cons e entries ih => rw [entriesHoldLive, ih, List.any_cons]

theorem itemsHaveCycle_eq (items : List Value) : itemsHaveCycle items = items.any hasCycle := by
  induction items with
  | nil => rfl
  | cons v items ih => rw [itemsHaveCycle, ih, List.any_cons]

theorem entriesHaveCycle_eq (entries : Entries) :
    entriesHaveCycle entries = entries.any (·.2.hasCycle) := by
  induction entries with
  | nil => rfl
  | cons e entries ih => rw [entriesHaveCycle, ih, List.any_cons]

theorem closeItems_eq {items : List Value} (h : ∀ v ∈ items, v.closeCycles = v) :
    closeItems items = items := by
  induction items with
  | nil => rfl
  | cons v items ih =>
    rw [List.forall_mem_cons] at h
    rw [closeItems, h.1, ih h.2]

theorem closeEntries_eq {entries : Entries} (h : ∀ e ∈ entries, e.2.closeCycles = e.2) :
    closeEntries entries = entries := by
  induction entries with
  | nil => rfl
  | cons e entries ih =>
    rw [List.forall_mem_cons] at h
    rw [closeEntries, h.1, ih h.2]

theorem unrollItems_eq {whole : Value} {items : List Value}
    (h : ∀ v ∈ items, unroll whole v = v) : unrollItems whole items = items := by
  induction items with
  | nil => rfl
  | cons v items ih =>
    rw [List.forall_mem_cons] at h
    rw [unrollItems, h.1, ih h.2]

theorem unrollEntries_eq {whole : Value} {entries : Entries}
    (h : ∀ e ∈ entries, unroll whole e.2 = e.2) : unrollEntries whole entries = entries := by
  induction entries with
  | nil => rfl
  | cons e entries ih =>
    rw [List.forall_mem_cons] at h
    rw [unrollEntries, h.1, ih h.2]

/-! ## Whole values -/

/-- Nowhere in the value, not even among its keys, is there a cycle. -/
inductive Whole : Value → Prop
  | null : Whole .null
  | bool (b : Bool) : Whole (.bool b)
  | number (n : Number) : Whole (.number n)
  | string (s : String) : Whole (.string s)
  | date (d : Date) : Whole (.date d)
  | timestamp (t : Timestamp) : Whole (.timestamp t)
  | duration (d : Duration) : Whole (.duration d)
  | pattern (p : Pattern) : Whole (.pattern p)
  | html (markup : String) : Whole (.html markup)
  | image (source : String) : Whole (.image source)
  | icon (name : String) : Whole (.icon name)
  | bytes (octets : List UInt8) : Whole (.bytes octets)
  | link (path : String) {display : Value} : Whole display → Whole (.link path display)
  | file {r : FileRecord Value} : (∀ v ∈ r.parts, Whole v) → Whole (.file r)
  | list {items : List Value} : (∀ v ∈ items, Whole v) → Whole (.list items)
  | mapping {live : Bool} {entries : Entries} : (∀ v ∈ Entries.parts entries, Whole v) →
      Whole (.mapping live entries)
  | set {items : List Value} : (∀ v ∈ items, Whole v) → Whole (.set items)

/-- There is no place in a whole value where something could be put for a cycle. -/
theorem Whole.unroll_eq {v whole : Value} (h : v.Whole) : unroll whole v = v := by
  induction h with
  | link path _ ih => rw [unroll, ih]
  | list _ ih => rw [unroll, unrollItems_eq ih]
  | @mapping live entries _ ih =>
    rw [unroll, unrollEntries_eq fun e he => ih e.2 (Entries.mem_parts he).2]
    cases live <;> rfl
  | _ => rfl

theorem Whole.hasCycle_eq {v : Value} (h : v.Whole) : v.hasCycle = false := by
  induction h with
  | link path _ ih => rw [hasCycle, ih]
  | list _ ih =>
    rw [hasCycle, itemsHaveCycle_eq, List.any_eq_false]
    exact fun v hv => Bool.eq_false_iff.mp (ih v hv)
  | mapping _ ih =>
    rw [hasCycle, entriesHaveCycle_eq, List.any_eq_false]
    exact fun e he => Bool.eq_false_iff.mp (ih e.2 (Entries.mem_parts he).2)
  | _ => rfl

/-- What is taken out of whole values, or put together from them, is whole. -/
theorem Whole.hereditary : Hereditary Whole where
  null := .null
  bool := .bool
  number := .number
  string := .string
  timestamp := .timestamp
  duration := .duration
  pattern := .pattern
  html := .html
  image := .image
  icon := .icon
  link path _ := .link path
  file := .file
  list := .list
  mapping := .mapping
  shown h := by
    cases h with
    | link _ h => exact h
  parts h := by
    cases h with
    | file h => exact h
  items h := by
    cases h with
    | list h => exact h
  members h := by
    cases h with
    | set h => exact h
  keys h e he := by
    cases h with
    | mapping h => exact h e.1 (Entries.mem_parts he).1
  values {live entries} h e he := by
    cases h with
    | mapping h =>
      have hv := h e.2 (Entries.mem_parts he).2
      cases live with
      | false => exact hv
      | true =>
        rw [takenFrom, if_pos rfl, hv.unroll_eq]
        exact hv

/-! ## Storing values -/

mutual

/-- A value that does not hold the mapping that it is stored in is stored as it is. -/
theorem closeCycles_eq : {v : Value} → v.holdsLive = false → v.closeCycles = v
  | .link path shown, h => by
    rw [holdsLive] at h
    rw [closeCycles, closeCycles_eq h]
  | .list items, h => by
    rw [holdsLive] at h
    rw [closeCycles, closeItems_eq (allClosed h)]
  | .mapping live entries, h => by
    rw [holdsLive, Bool.or_eq_false_iff] at h
    rw [closeCycles, closeEntries_eq (allEntriesClosed h.2), h.1]
    rfl
  | .null, _ | .bool _, _ | .number _, _ | .string _, _ | .date _, _ | .timestamp _, _
  | .duration _, _ | .pattern _, _ | .file _, _ | .html _, _ | .image _, _ | .icon _, _
  | .set _, _ | .bytes _, _ | .cycle, _ => rfl

theorem allClosed : {items : List Value} → itemsHoldLive items = false →
    ∀ v ∈ items, v.closeCycles = v
  | [], _ => List.forall_mem_nil _
  | v :: items, h => by
    rw [itemsHoldLive, Bool.or_eq_false_iff] at h
    exact List.forall_mem_cons.mpr ⟨closeCycles_eq h.1, allClosed h.2⟩

theorem allEntriesClosed : {entries : Entries} → entriesHoldLive entries = false →
    ∀ e ∈ entries, e.2.closeCycles = e.2
  | [], _ => List.forall_mem_nil _
  | (k, v) :: entries, h => by
    rw [entriesHoldLive, Bool.or_eq_false_iff] at h
    exact List.forall_mem_cons.mpr ⟨closeCycles_eq h.1, allEntriesClosed h.2⟩

end

mutual

/-- A value that holds the mapping that it is stored in is stored with a cycle. -/
theorem hasCycle_closeCycles : {v : Value} → v.holdsLive = true → v.closeCycles.hasCycle = true
  | .link path shown, h => by
    rw [holdsLive] at h
    rw [closeCycles, hasCycle, hasCycle_closeCycles h]
  | .list items, h => by
    rw [holdsLive] at h
    rw [closeCycles, hasCycle, itemsHaveCycle_closeItems h]
  | .mapping true entries, h => rfl
  | .mapping false entries, h => by
    rw [holdsLive, Bool.false_or] at h
    rw [closeCycles, if_neg Bool.false_ne_true, hasCycle, entriesHaveCycle_closeEntries h]
  | .null, h | .bool _, h | .number _, h | .string _, h | .date _, h | .timestamp _, h
  | .duration _, h | .pattern _, h | .file _, h | .html _, h | .image _, h | .icon _, h
  | .set _, h | .bytes _, h | .cycle, h => absurd h Bool.false_ne_true

theorem itemsHaveCycle_closeItems : {items : List Value} → itemsHoldLive items = true →
    itemsHaveCycle (closeItems items) = true
  | [], h => absurd h Bool.false_ne_true
  | v :: items, h => by
    rw [itemsHoldLive, Bool.or_eq_true] at h
    rw [closeItems, itemsHaveCycle, Bool.or_eq_true]
    exact h.imp hasCycle_closeCycles itemsHaveCycle_closeItems

theorem entriesHaveCycle_closeEntries : {entries : Entries} → entriesHoldLive entries = true →
    entriesHaveCycle (closeEntries entries) = true
  | [], h => absurd h Bool.false_ne_true
  | (k, v) :: entries, h => by
    rw [entriesHoldLive, Bool.or_eq_true] at h
    rw [closeEntries, entriesHaveCycle, Bool.or_eq_true]
    exact h.imp hasCycle_closeCycles entriesHaveCycle_closeEntries

end

/-- A whole value stays whole in being stored just if it does not hold the mapping that it is stored
in. -/
theorem Whole.closeCycles_iff {v : Value} (h : v.Whole) :
    v.closeCycles.Whole ↔ v.holdsLive = false := by
  constructor
  · intro hclosed
    cases hlive : v.holdsLive with
    | false => rfl
    | true =>
      have hcycle := hasCycle_closeCycles hlive
      rw [hclosed.hasCycle_eq] at hcycle
      exact absurd hcycle Bool.false_ne_true
  · intro hlive
    rwa [closeCycles_eq hlive]

end Value

end NoteQuery
