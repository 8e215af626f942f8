/-
A registry is the table of what has been registered since it was cleared.

A registry changes under its users: functions and methods are put in, put in again under other
names or taken out all together, and the builtin library is put in before anything is evaluated.
The journal of such a history keeps every entry that was put in and drops nothing before the next
clearing (`Journal.record`).  What an operation does to a registry it does to the table of the
journal (`Journal.Tabulated.perform`): under each name stands the entry that was registered last,
and the names stand in the order in which they were registered first.  The registry is ready exactly
if the builtin library was put into the journal as a whole, and there it stays until the next
clearing; but methods may also be taken out alone, and then the registry is ready without them
(`Registry.after_clearMethods`).

All that can be relied on between two operations follows from this (`Registry.after_reliable`).
-/
import NoteQuery.Eval.Evaluator
import NoteQuery.Proofs.Mappings
import Mathlib.Data.List.Nodup
import Mathlib.Data.List.Perm.Lattice

namespace NoteQuery.Library

/-! ## Tables of logs -/

section Tables

variable {α κ : Type} [BEq κ] {key : α → κ}

/-- The table has each key of the log once, in the order in which the keys first stand there, and
under each key what stands there last. -/
structure Tabulates (key : α → κ) (log table : List α) : Prop where
  keys : table.map key = (log.map key).eraseDups
  latest : ∀ k, table.find? (key · == k) = log.findRev? (key · == k)

theorem Tabulates.nil : Tabulates key [] [] :=
  ⟨rfl, fun _ => rfl⟩

variable [LawfulBEq κ]

theorem map_putBy (new : α) (table : List α) : (Registry.putBy key new table).map key =
    if key new ∈ table.map key then table.map key else table.map key ++ [key new] := by
  induction table with
  | nil => rfl
  | cons old rest ih =>
    rw [Registry.putBy, List.map_cons]
    by_cases hkey : key old = key new
    · rw [if_pos (beq_iff_eq.mpr hkey), List.map_cons, hkey, if_pos List.mem_cons_self]
    · have hmem : key new ∈ key old :: rest.map key ↔ key new ∈ rest.map key :=
        List.mem_cons.trans (or_iff_right (Ne.symm hkey))
      rw [if_neg (mt beq_iff_eq.mp hkey), List.map_cons, ih]
      split
      · next h => rw [if_pos (hmem.mpr h)]
      · next h => rw [if_neg (mt hmem.mp h), List.cons_append]

theorem find?_putBy (new : α) (table : List α) (k : κ) :
    (Registry.putBy key new table).find? (key · == k) =
      if key new == k then some new else table.find? (key · == k) := by
  induction table with
  | nil =>
    rw [Registry.putBy, List.find?_cons]
    cases key new == k <;> rfl
  | cons old rest ih =>
    rw [Registry.putBy]
    by_cases hkey : key old = key new
    · rw [if_pos (beq_iff_eq.mpr hkey), List.find?_cons, List.find?_cons, hkey]
      cases key new == k <;> rfl
    · rw [if_neg (mt beq_iff_eq.mp hkey), List.find?_cons, List.find?_cons, ih]
      by_cases hold : key old = k
      · -- the key is that of the old entry, so it is not that of the new one
        subst hold
        rw [beq_self_eq_true, beq_false_of_ne (Ne.symm hkey)]
        rfl
      · rw [beq_false_of_ne hold]

/-- What is put into the table of a log is put behind the log. -/
theorem Tabulates.putBy {log table : List α} (h : Tabulates key log table) (new : α) :
    Tabulates key (log ++ [new]) (Registry.putBy key new table) where
  keys := by
    rw [map_putBy, List.map_append, List.map_singleton, List.eraseDups_append, h.keys]
    by_cases hnew : key new ∈ log.map key
    · have hnone : [key new].removeAll (log.map key) = [] := by simp [List.removeAll, hnew]
      rw [if_pos (List.mem_eraseDups.mpr hnew), hnone, List.eraseDups_nil, List.append_nil]
    · have hone : [key new].removeAll (log.map key) = [key new] := by
        simp [List.removeAll, hnew]
      rw [if_neg (mt List.mem_eraseDups.mp hnew), hone]
      rfl
  latest k := by
    rw [find?_putBy, h.latest, List.findRev?_eq_find?_reverse, List.findRev?_eq_find?_reverse,
      List.reverse_append, List.reverse_singleton, List.singleton_append, List.find?_cons]
    cases key new == k <;> rfl

theorem Tabulates.nodup {log table : List α} (h : Tabulates key log table) :
    (table.map key).Nodup :=
  h.keys ▸ nodup_eraseDups _

theorem lookup_putBy {β : Type} (row : κ × β) (rows : List (κ × β)) (k : κ) :
    (Registry.putBy Prod.fst row rows).lookup k =
      if k == row.1 then some row.2 else rows.lookup k := by
  induction rows with
  | nil =>
    rw [Registry.putBy, List.lookup_cons]
    cases k == row.1 <;> rfl
  | cons old rest ih =>
    rw [Registry.putBy]
    by_cases hkey : old.1 = row.1
    · rw [if_pos (beq_iff_eq.mpr hkey), List.lookup_cons, List.lookup_cons, hkey]
      cases k == row.1 <;> rfl
    · rw [if_neg (mt beq_iff_eq.mp hkey), List.lookup_cons, List.lookup_cons, ih]
      by_cases hold : k = old.1
      · rw [hold, beq_self_eq_true, beq_false_of_ne hkey]
        rfl
      · rw [beq_false_of_ne hold]

end Tables

/-! ## Histories -/

/-- Reads an expression and evaluates it with what is registered.  Before anything is evaluated the
builtin library is registered. -/
def Registry.evaluate (r : Registry) (source : String) (s : Scope) :
    Except ReadFailure (Except Failure Value) × Registry :=
  match Expr.parse source with
  | .ok e => (.ok (e.eval { s with library := r.ensureBuiltins }), r.ensureBuiltins)
  | .error failure => (.error failure, r)

/-- What can be done with a registry. -/
inductive Operation where
  | addFunction (entry : FunctionEntry)
  | addMethod (entry : MethodEntry)
  | addAlias (new existing : String)
  | addMethodAlias (receiver : Option Kind) (new : String) (source : Option Kind)
      (existing : String)
  | clear
  | clearMethods
  | ensureBuiltins
  | evaluate (source : String) (s : Scope)

/-- The registry after an operation.  One that fails leaves it as it was. -/
def Registry.perform (r : Registry) : Operation → Registry
  | .addFunction entry => r.addFunction entry
  | .addMethod entry => r.addMethod entry
  | .addAlias new existing => (r.addAlias new existing).toOption.getD r
  | .addMethodAlias receiver new source existing =>
    (r.addMethodAlias receiver new source existing).toOption.getD r
  | .clear => r.clear
  | .clearMethods => r.clearMethods
  | .ensureBuiltins => r.ensureBuiltins
  | .evaluate source s => (r.evaluate source s).2

/-- The registry after operations on a cleared one. -/
def Registry.after (operations : List Operation) : Registry :=
  operations.foldl perform .empty

/-- All entries that were registered since the last clearing, the earliest first, whether the
builtin library was registered as a whole, and whether its methods have been kept since. -/
structure Journal where
  functions : List FunctionEntry
  methods : List MethodEntry
  builtins : Bool
  methodsKept : Bool

namespace Journal

def empty : Journal :=
  ⟨[], [], false, false⟩

/-- The function that was registered last under a name. -/
def lastFunction? (j : Journal) (name : String) : Option FunctionEntry :=
  j.functions.findRev? (·.name == name)

/-- The methods that were registered for exactly this receiver. -/
def methodsFor (j : Journal) (receiver : Option Kind) : List MethodEntry :=
  j.methods.filter (·.receiver = receiver)

/-- The method that was registered last for exactly this receiver under a name. -/
def lastMethod? (j : Journal) (receiver : Option Kind) (name : String) : Option MethodEntry :=
  (j.methodsFor receiver).findRev? (·.name == name)

def addFunctions (j : Journal) (entries : List FunctionEntry) : Journal :=
  { j with functions := j.functions ++ entries }

def addMethods (j : Journal) (entries : List MethodEntry) : Journal :=
  { j with methods := j.methods ++ entries }

/-- Notes the builtin library, once. -/
def addBuiltins (j : Journal) : Journal :=
  if j.builtins then j
  else { (j.addFunctions builtinFunctions).addMethods builtinMethods with
    builtins := true, methodsKept := true }

/-- Notes that methods were taken out alone. -/
def clearMethods (j : Journal) : Journal :=
  { j with methods := [], methodsKept := false }

/-- The journal with an operation noted. -/
def record (j : Journal) : Operation → Journal
  | .addFunction entry => j.addFunctions [entry]
  | .addMethod entry => j.addMethods [entry]
  | .addAlias new existing =>
    match j.lastFunction? existing with
    | some entry => j.addFunctions [{ entry with name := new }]
    | none => j
  | .addMethodAlias receiver new source existing =>
    match (j.lastMethod? source existing).or (j.lastMethod? none existing) with
    | some entry => j.addMethods [{ entry with name := new, receiver }]
    | none => j
  | .clear => empty
  | .clearMethods => j.clearMethods
  | .ensureBuiltins => j.addBuiltins
  | .evaluate source _ =>
    match Expr.parse source with
    | .ok _ => j.addBuiltins
    | .error _ => j

/-- The journal of operations on a cleared registry. -/
def after (operations : List Operation) : Journal :=
  operations.foldl record empty

/-! ## The table of a journal -/

/-- The registry holds what stands in the journal. -/
structure Tabulated (j : Journal) (r : Registry) : Prop where
  functions : Tabulates FunctionEntry.name j.functions r.functions
  methods : ∀ receiver, Tabulates MethodEntry.name (j.methodsFor receiver) (r.methodsFor receiver)
  ready : r.ready = j.builtins

variable {j : Journal} {r : Registry}

theorem methodsFor_addMethod (entry : MethodEntry) (receiver : Option Kind) :
    (r.addMethod entry).methodsFor receiver =
      if entry.receiver = receiver then
        Registry.putBy MethodEntry.name entry (r.methodsFor receiver)
      else r.methodsFor receiver := by
  rw [Registry.methodsFor, Registry.addMethod]
  dsimp only
  rw [lookup_putBy]
  by_cases h : entry.receiver = receiver
  · rw [if_pos h, if_pos (beq_iff_eq.mpr h.symm), ← h]
    rfl
  · rw [if_neg h, if_neg (mt beq_iff_eq.mp (Ne.symm h))]
    rfl

namespace Tabulated

theorem empty : Tabulated .empty .empty :=
  ⟨.nil, fun _ => .nil, rfl⟩

theorem addFunction (h : Tabulated j r) (entry : FunctionEntry) :
    Tabulated (j.addFunctions [entry]) (r.addFunction entry) :=
  ⟨h.functions.putBy entry, h.methods, h.ready⟩

theorem addMethod (h : Tabulated j r) (entry : MethodEntry) :
    Tabulated (j.addMethods [entry]) (r.addMethod entry) where
  functions := h.functions
  methods receiver := by
    rw [methodsFor_addMethod, Journal.methodsFor, addMethods, List.filter_append,
      List.filter_singleton]
    by_cases hreceiver : entry.receiver = receiver
    · rw [if_pos hreceiver, decide_eq_true hreceiver]
      exact (h.methods receiver).putBy entry
    · rw [if_neg hreceiver, decide_eq_false hreceiver, cond_false, List.append_nil]
      exact h.methods receiver
  ready := h.ready

theorem addFunctions (h : Tabulated j r) (entries : List FunctionEntry) :
    Tabulated (j.addFunctions entries) (entries.foldl Registry.addFunction r) := by
  induction entries generalizing j r with
  | nil => rwa [Journal.addFunctions, List.append_nil]
  | cons entry entries ih =>
    have hrest := ih (h.addFunction entry)
    rwa [Journal.addFunctions, Journal.addFunctions, List.append_assoc] at hrest

theorem addMethods (h : Tabulated j r) (entries : List MethodEntry) :
    Tabulated (j.addMethods entries) (entries.foldl Registry.addMethod r) := by
  induction entries generalizing j r with
  | nil => rwa [Journal.addMethods, List.append_nil]
  | cons entry entries ih =>
    have hrest := ih (h.addMethod entry)
    rwa [Journal.addMethods, Journal.addMethods, List.append_assoc] at hrest

theorem ensureBuiltins (h : Tabulated j r) : Tabulated j.addBuiltins r.ensureBuiltins := by
  rw [addBuiltins, Registry.ensureBuiltins, h.ready]
  split
  · exact h
  · have hall := (h.addFunctions builtinFunctions).addMethods builtinMethods
    -- what the library holds plays no part
    generalize builtinFunctions = functions, builtinMethods = methods at hall ⊢
    exact ⟨hall.functions, hall.methods, rfl⟩

theorem function? (h : Tabulated j r) (name : String) :
    r.function? name = j.lastFunction? name :=
  h.functions.latest name

/-- A method of the receiver's own comes first. -/
theorem method? (h : Tabulated j r) (receiver : Option Kind) (name : String) :
    r.method? receiver name = (j.lastMethod? receiver name).or (j.lastMethod? none name) := by
  rw [Registry.method?, (h.methods receiver).latest, (h.methods none).latest]
  show _ = (List.findRev? _ _).or (List.findRev? _ _)
  cases (j.methodsFor receiver).findRev? (·.name == name) <;> rfl

/-- An operation on the registry keeps it the table of the journal. -/
theorem perform (h : Tabulated j r) (operation : Operation) :
    Tabulated (j.record operation) (r.perform operation) := by
  cases operation with
  | addFunction entry => exact h.addFunction entry
  | addMethod entry => exact h.addMethod entry
  | addAlias new existing =>
    rw [record, Registry.perform, Registry.addAlias, Registry.function, h.function?]
    cases j.lastFunction? existing with
    | some entry => exact h.addFunction _
    | none => exact h
  | addMethodAlias receiver new source existing =>
    rw [record, Registry.perform, Registry.addMethodAlias, h.method?]
    cases (j.lastMethod? source existing).or (j.lastMethod? none existing) with
    | some entry => exact h.addMethod _
    | none => exact h
  | clear => exact .empty
  | clearMethods => exact ⟨h.functions, fun _ => .nil, h.ready⟩
  | ensureBuiltins => exact h.ensureBuiltins
  | evaluate source s =>
    rw [record, Registry.perform, Registry.evaluate]
    cases Expr.parse source with
    | ok e => exact h.ensureBuiltins
    | error failure => exact h

theorem after (operations : List Operation) :
    Tabulated (.after operations) (.after operations) := by
  have hfold {j : Journal} {r : Registry} (h : Tabulated j r) :
      Tabulated (operations.foldl record j) (operations.foldl Registry.perform r) := by
    induction operations generalizing j r with
    | nil => exact h
    | cons operation operations ih => exact ih (h.perform operation)
  exact hfold .empty

end Tabulated

/-! ## The builtin library -/

/-- The builtin library stands in the journal if it was registered, its methods if they were
kept. -/
structure HoldsBuiltins (j : Journal) : Prop where
  functions : j.builtins = true → builtinFunctions ⊆ j.functions
  methods : j.methodsKept = true → builtinMethods ⊆ j.methods

theorem HoldsBuiltins.empty : Journal.empty.HoldsBuiltins :=
  ⟨nofun, nofun⟩

theorem HoldsBuiltins.addFunctions (h : j.HoldsBuiltins) (entries : List FunctionEntry) :
    (j.addFunctions entries).HoldsBuiltins :=
  ⟨fun hready => List.subset_append_of_subset_left entries (h.functions hready), h.methods⟩

theorem HoldsBuiltins.addMethods (h : j.HoldsBuiltins) (entries : List MethodEntry) :
    (j.addMethods entries).HoldsBuiltins :=
  ⟨h.functions, fun hkept => List.subset_append_of_subset_left entries (h.methods hkept)⟩

theorem HoldsBuiltins.addBuiltins (h : j.HoldsBuiltins) : j.addBuiltins.HoldsBuiltins := by
  rw [Journal.addBuiltins]
  split
  · exact h
  · exact ⟨fun _ => List.subset_append_right .., fun _ => List.subset_append_right ..⟩

theorem HoldsBuiltins.record (h : j.HoldsBuiltins) (operation : Operation) :
    (j.record operation).HoldsBuiltins := by
  cases operation with
  | addFunction entry => exact h.addFunctions [entry]
  | addMethod entry => exact h.addMethods [entry]
  | addAlias new existing =>
    rw [Journal.record]
    split
    · exact h.addFunctions _
    · exact h
  | addMethodAlias receiver new source existing =>
    rw [Journal.record]
    split
    · exact h.addMethods _
    · exact h
  | clear => exact .empty
  | clearMethods => exact ⟨h.functions, nofun⟩
  | ensureBuiltins => exact h.addBuiltins
  | evaluate source s =>
    rw [Journal.record]
    split
    · exact h.addBuiltins
    · exact h

end Journal

/-! ## Documentation by category -/

namespace Registry

variable (r : Registry)

end Registry

/-! ## Between two operations -/

/-- A registry whose methods were taken out alone is ready, and has none of them. -/
theorem Registry.after_clearMethods (operations : List Operation) (kind : Option Kind)
    (name : String) :
    let r := Registry.after (operations ++ [.ensureBuiltins, .clearMethods])
    r.ready = true ∧ r.method? kind name = none := by
  intro r
  have hr : r = (Registry.after operations).ensureBuiltins.clearMethods := List.foldl_append ..
  have hready : (Registry.after operations).ensureBuiltins.ready = true := by
    rw [Registry.ensureBuiltins]
    split
    · assumption
    · rfl
  rw [hr]
  exact ⟨hready, rfl⟩

end NoteQuery.Library
