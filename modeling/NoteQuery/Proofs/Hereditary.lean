/-
Properties that values share with their parts.

A property of values is hereditary if every value that is made from nothing else has it, a value
made from values that have it has it, and so do the values that can be taken out of one that has it.
Operations on values do nothing but take them apart and put them together, so what is found in
entries, lists and files has a hereditary property as soon as these have it in all their parts.
-/
import NoteQuery.Proofs.Mappings
import NoteQuery.Value.Plain
import Mathlib.Data.List.Basic

namespace NoteQuery

/-- The keys and the values of entries. -/
def Entries.parts (entries : Entries) : List Value :=
  entries.map Prod.fst ++ entries.map Prod.snd

/-- The values that a file record has. -/
def FileRecord.parts (r : FileRecord Value) : List Value :=
  Entries.parts r.properties ++ (r.tags ++ (r.links ++ (r.embeds ++ r.backlinks)))

/-- The property goes from the parts of values to the values, and back. -/
structure Value.Hereditary (P : Value → Prop) : Prop where
  null : P .null
  bool : ∀ b, P (.bool b)
  number : ∀ n, P (.number n)
  string : ∀ s, P (.string s)
  timestamp : ∀ t, P (.timestamp t)
  duration : ∀ d, P (.duration d)
  pattern : ∀ p, P (.pattern p)
  html : ∀ markup, P (.html markup)
  image : ∀ source, P (.image source)
  icon : ∀ name, P (.icon name)
  link : ∀ path {display}, P display → P (.link path display)
  file : ∀ {r}, (∀ v ∈ FileRecord.parts r, P v) → P (.file r)
  list : ∀ {items}, (∀ v ∈ items, P v) → P (.list items)
  mapping : ∀ {entries}, (∀ v ∈ Entries.parts entries, P v) → P (.mapping false entries)
  shown : ∀ {path display}, P (.link path display) → P display
  parts : ∀ {r}, P (.file r) → ∀ v ∈ FileRecord.parts r, P v
  items : ∀ {items}, P (.list items) → ∀ v ∈ items, P v
  members : ∀ {items}, P (.set items) → ∀ v ∈ items, P v
  keys : ∀ {live entries}, P (.mapping live entries) → ∀ e ∈ entries, P e.1
  values : ∀ {live entries}, P (.mapping live entries) → ∀ e ∈ entries,
    P (Value.takenFrom live entries e.2)

namespace Value.Hereditary

variable {P : Value → Prop} (hP : Hereditary P)
include hP

theorem getD {found : Option Value} (h : ∀ v, found = some v → P v) : P (found.getD .null) := by
  cases found with
  | none => exact hP.null
  | some v => exact h v rfl

theorem getD_of_mem {vs : List Value} (h : ∀ v ∈ vs, P v) (i : Nat) : P (vs.getD i .null) := by
  rw [List.getD_eq_getElem?_getD]
  exact hP.getD fun v hv => h v (List.mem_of_getElem? hv)

end Value.Hereditary

/-! ## Entries -/

namespace Entries

variable {P : Value → Prop}

theorem mem_parts {entries : Entries} {key v : Value} (h : (key, v) ∈ entries) :
    key ∈ parts entries ∧ v ∈ parts entries :=
  ⟨List.mem_append_left _ (List.mem_map.mpr ⟨(key, v), h, rfl⟩),
    List.mem_append_right _ (List.mem_map.mpr ⟨(key, v), h, rfl⟩)⟩

theorem forall_parts {entries : Entries} :
    (∀ v ∈ parts entries, P v) ↔ ∀ e ∈ entries, P e.1 ∧ P e.2 := by
  simp only [parts, List.forall_mem_append, List.forall_mem_map, forall_and]

theorem forall_parts_cons {key v : Value} {entries : Entries} :
    (∀ w ∈ parts ((key, v) :: entries), P w) ↔ P key ∧ P v ∧ ∀ w ∈ parts entries, P w := by
  simp only [forall_parts, List.forall_mem_cons, and_assoc]

/-- What is found in entries is one of their values. -/
theorem find?_of_parts {entries : Entries} (h : ∀ v ∈ parts entries, P v) {key v : Value}
    (hv : find? entries key = some v) : P v := by
  obtain ⟨e, he, rfl⟩ := Option.map_eq_some_iff.mp hv
  exact h e.2 (mem_parts (List.mem_of_find?_eq_some he)).2

theorem put_parts {entries : Entries} (h : ∀ v ∈ parts entries, P v) {key v : Value}
    (hkey : P key) (hv : P v) : ∀ w ∈ parts (put entries key v), P w := by
  induction entries with
  | nil => exact forall_parts_cons.mpr ⟨hkey, hv, h⟩
  | cons e entries ih =>
    obtain ⟨hk, ha, hrest⟩ := forall_parts_cons.mp h
    rw [put, Keyed.put]
    split
    · exact forall_parts_cons.mpr ⟨hk, hv, hrest⟩
    · exact forall_parts_cons.mpr ⟨hk, ha, ih hrest⟩

theorem ofList_parts {pairs : List (Value × Value)} (h : ∀ p ∈ pairs, P p.1 ∧ P p.2) :
    ∀ v ∈ parts (ofList pairs), P v := by
  have hfold (entries : Entries) (hentries : ∀ v ∈ parts entries, P v) :
      ∀ v ∈ parts (pairs.foldl (fun entries e => put entries e.1 e.2) entries), P v := by
    induction pairs generalizing entries with
    | nil => exact hentries
    | cons p pairs ih =>
      rw [List.forall_mem_cons] at h
      exact ih h.2 _ (put_parts hentries h.1.1 h.1.2)
  exact hfold [] (List.forall_mem_nil _)

theorem ofTexts_parts {pairs : List (String × Value)} (hP : Value.Hereditary P)
    (h : ∀ p ∈ pairs, P p.2) : ∀ v ∈ parts (ofTexts pairs), P v :=
  ofList_parts (List.forall_mem_map.mpr fun p hp => ⟨hP.string p.1, h p hp⟩)

/-- The value under a text in a mapping, or null. -/
theorem taken_getD (hP : Value.Hereditary P) {live : Bool} {entries : Entries}
    (h : P (.mapping live entries)) (key : String) :
    P (Value.takenFrom live entries ((get? entries key).getD .null)) := by
  cases hv : get? entries key with
  | none =>
    rw [Option.getD_none, show Value.takenFrom live entries .null = .null by cases live <;> rfl]
    exact hP.null
  | some v =>
    obtain ⟨e, he, rfl⟩ := Option.map_eq_some_iff.mp hv
    exact hP.values h e (List.mem_of_find?_eq_some he)

end Entries

/-! ## Files -/

namespace FileRecord

variable {P : Value → Prop}

theorem ofPath_of_hereditary (hP : Value.Hereditary P) (pathLike : String) :
    P (.file (ofPath pathLike)) := by
  refine hP.file fun v hv => ?_
  simp only [ofPath, parts, Entries.parts, List.map_nil, List.append_nil, List.not_mem_nil] at hv

theorem field?_of_hereditary (hP : Value.Hereditary P) {r : FileRecord Value}
    (h : P (.file r)) {name : String} {v : Value} (hv : r.field? name = some v) : P v := by
  have hfields : ∀ field ∈ r.fields, P field.2 := by
    have hparts := hP.parts h
    simp only [parts, List.forall_mem_append] at hparts
    obtain ⟨hproperties, htags, hlinks, hembeds, hbacklinks⟩ := hparts
    simp only [fields, List.forall_mem_cons]
    exact ⟨hP.string _, hP.string _, hP.string _, hP.string _, hP.string _, hP.number _,
      hP.timestamp _, hP.timestamp _, hP.mapping hproperties, hP.list htags, hP.list hlinks,
      hP.list hembeds, hP.list hbacklinks, hP.string _, List.forall_mem_nil _⟩
  rw [field?] at hv
  split at hv
  · cases hv
    exact h
  · obtain ⟨before, after, hr, -⟩ := List.lookup_eq_some_iff.mp hv
    exact hfields (name, v) (hr ▸ List.mem_append_right before List.mem_cons_self)

end FileRecord

end NoteQuery
